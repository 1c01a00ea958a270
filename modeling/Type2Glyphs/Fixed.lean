/-!
# Fixed — signed 16.16 numbers

Every coordinate, width and non-integer operand of a glyph program is a signed 32-bit count of
1/65536ths.  This file defines

* `Fixed`, with the count as its only field, and the view `Fixed.raw : Fixed → Int`;
* wrapping addition, subtraction and negation;
* multiplication and division, rounded to the nearest count;
* the order, which is the order of the counts.

All results are reduced to 32 bits, so `Fixed.ofRaw` is the only way back from `Int`, and
`raw_ofRaw` says when it loses nothing.
-/

namespace Type2Glyphs

/-- A number of 1/65536ths, held in 32 bits. -/
structure Fixed where
  bits : Int32
  deriving DecidableEq, Inhabited

namespace Fixed

/-! ## The count behind a number -/

/-- The count of 1/65536ths, as an integer. -/
def raw (a : Fixed) : Int :=
  a.bits.toInt

/-- The number with the given count, of which the low 32 bits are kept. -/
def ofRaw (count : Int) : Fixed :=
  ⟨Int32.ofInt count⟩

/-- The whole number `i`, of which the low 16 bits are kept. -/
def ofInt (i : Int) : Fixed :=
  ofRaw (i * 65536)

instance : OfNat Fixed 0 := ⟨ofRaw 0⟩

instance : OfNat Fixed 1 := ⟨ofInt 1⟩

/-- The largest whole number that is not above `a`. -/
def floor (a : Fixed) : Int32 :=
  Int32.ofInt (a.raw / 65536)

/-! ## Arithmetic -/

instance : Add Fixed := ⟨fun a b => ⟨a.bits + b.bits⟩⟩

instance : Sub Fixed := ⟨fun a b => ⟨a.bits - b.bits⟩⟩

instance : Neg Fixed := ⟨fun a => ⟨-a.bits⟩⟩

/-- The absolute value; the least number has none and stays as it is. -/
def abs (a : Fixed) : Fixed :=
  if a.raw < 0 then -a else a

/-- The product of two counts as a count, rounded to nearest; a half goes away from zero. -/
def roundProduct (p : Int) : Int :=
  -- division rounds down, so a negative half needs one less to go away from zero
  (p + 32768 - if p < 0 then 1 else 0) / 65536

instance : Mul Fixed := ⟨fun a b => ofRaw (roundProduct (a.raw * b.raw))⟩

/-- The number `a * m / b`, with the product exact and the quotient rounded to nearest.  The
rounding is done on absolute values, so a half goes away from zero. -/
def mulDiv (a m b : Fixed) : Fixed :=
  let magnitude := (a.raw.natAbs * m.raw.natAbs + b.raw.natAbs / 2) / b.raw.natAbs
  let quotient := ofRaw magnitude
  if a.raw.sign * m.raw.sign * b.raw.sign < 0 then -quotient else quotient

/-- The quotient of two numbers, rounded to nearest. -/
def quotient (a b : Fixed) : Fixed :=
  mulDiv a 1 b

/-- Half of a number, rounded toward zero. -/
def half (a : Fixed) : Fixed :=
  ofRaw (a.raw.tdiv 2)

/-- The number halfway between two others, rounded down. -/
def midpoint (a b : Fixed) : Fixed :=
  ofRaw ((a.raw + b.raw) / 2)

/-! ## Order -/

instance : LE Fixed := ⟨fun a b => a.raw ≤ b.raw⟩

instance : LT Fixed := ⟨fun a b => a.raw < b.raw⟩

instance (a b : Fixed) : Decidable (a ≤ b) :=
  inferInstanceAs (Decidable (a.raw ≤ b.raw))

instance (a b : Fixed) : Decidable (a < b) :=
  inferInstanceAs (Decidable (a.raw < b.raw))

instance : Min Fixed := ⟨fun a b => if a ≤ b then a else b⟩

instance : Max Fixed := ⟨fun a b => if a ≤ b then b else a⟩

/-! ## Counts determine numbers -/

@[ext] theorem ext_raw {a b : Fixed} (h : a.raw = b.raw) : a = b := by
  cases a
  cases b
  simpa [raw, Int32.toInt_inj] using h

@[simp] theorem ofRaw_raw (a : Fixed) : ofRaw a.raw = a := by
  simp [ofRaw, raw]

theorem raw_lt (a : Fixed) : a.raw < 2147483648 :=
  a.bits.toInt_lt

theorem le_raw (a : Fixed) : -2147483648 ≤ a.raw :=
  a.bits.le_toInt

/-- A count that fits into 32 bits is kept. -/
theorem raw_ofRaw {count : Int} (low : -2147483648 ≤ count) (high : count < 2147483648) :
    (ofRaw count).raw = count :=
  Int32.toInt_ofInt_of_le low high

theorem raw_ofRaw_eq_bmod (count : Int) : (ofRaw count).raw = count.bmod 4294967296 := by
  simp [ofRaw, raw, Int32.toInt_ofInt]

theorem raw_add (a b : Fixed) : (a + b).raw = (a.raw + b.raw).bmod 4294967296 :=
  Int32.toInt_add a.bits b.bits

theorem raw_sub (a b : Fixed) : (a - b).raw = (a.raw - b.raw).bmod 4294967296 :=
  Int32.toInt_sub a.bits b.bits

theorem raw_neg (a : Fixed) : (-a).raw = (-a.raw).bmod 4294967296 :=
  Int32.toInt_neg a.bits

theorem add_assoc (a b c : Fixed) : a + b + c = a + (b + c) :=
  congrArg mk (Int32.add_assoc a.bits b.bits c.bits)

theorem add_comm (a b : Fixed) : a + b = b + a :=
  congrArg mk (Int32.add_comm a.bits b.bits)

theorem add_zero (a : Fixed) : a + 0 = a :=
  congrArg mk (Int32.add_zero a.bits)

@[simp] theorem raw_zero : (0 : Fixed).raw = 0 := by
  decide

@[simp] theorem raw_one : (1 : Fixed).raw = 65536 := by
  decide

theorem le_iff_raw {a b : Fixed} : a ≤ b ↔ a.raw ≤ b.raw :=
  Iff.rfl

theorem lt_iff_raw {a b : Fixed} : a < b ↔ a.raw < b.raw :=
  Iff.rfl

end Fixed

end Type2Glyphs
