import Type2Glyphs.Fixed

/-!
# RandomStream — the random numbers of glyph programs

Random numbers come from a linear congruence modulo `2 ^ 32`.  A number is drawn from the upper 16
bits of a state, and is above zero and at most one (`randomNumber_pos`, `randomNumber_le_one`).
-/

namespace Type2Glyphs

/-- The state after a given one. -/
def nextRandom (state : UInt32) : UInt32 :=
  state * 1103515245 + 12345

/-- The number drawn at a state. -/
def randomNumber (state : UInt32) : Fixed :=
  .ofRaw (state.toNat / 65536 + 1)

theorem raw_randomNumber (state : UInt32) :
    (randomNumber state).raw = state.toNat / 65536 + 1 := by
  have := state.toNat_lt
  apply Fixed.raw_ofRaw <;> omega

theorem randomNumber_pos (state : UInt32) : 0 < randomNumber state := by
  rw [Fixed.lt_iff_raw, raw_randomNumber, Fixed.raw_zero]
  omega

theorem randomNumber_le_one (state : UInt32) : randomNumber state ≤ 1 := by
  have := state.toNat_lt
  rw [Fixed.le_iff_raw, raw_randomNumber, Fixed.raw_one]
  omega

end Type2Glyphs
