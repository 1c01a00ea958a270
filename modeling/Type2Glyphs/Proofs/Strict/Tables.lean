import Type2Glyphs.Font
import Type2Glyphs.Proofs.Strict.Operands

/-!
# Tables — reading tables inside their bounds

Objects are cut out of an INDEX where they are inside its data, and ranges of glyphs are read by
their numbers.  All of this is defined, for any INDEX and any table: the checks in front of each
reading leave nothing to be read that is not there.
-/

namespace Type2Glyphs

namespace Strict

/-! ## Objects -/

/-- The place in the data that an offset refers to. -/
def place (offset : Nat) : Strict FontDataFault Nat := do
  if offset = 0 then
    throw .zeroOffset
  minus? offset 1

/-- The object with the given number. -/
def object (index : Index) (i : Nat) : Strict FontDataFault Bytes := do
  if index.count ≤ i then
    throw .outOfBounds
  let start ← place (index.offset i)
  let stop ← place (index.offset (i + 1))
  if stop < start then
    throw (.unorderedOffsets i)
  if index.data.length < stop then
    throw .outOfBounds
  slice? start stop index.data

/-! ## Glyphs -/

/-- The number of ranges in front of the bisection point. -/
def bisect (ranges : Array FontDictRange) (glyph low high : Nat) : Option Nat :=
  if low < high then do
    let middle := (low + high) / 2
    let range ← ranges[middle]?
    if range.first ≤ glyph then
      bisect ranges glyph (middle + 1) high
    else
      bisect ranges glyph low middle
  else
    return low
termination_by high - low

/-- The number of the font DICT of a glyph, if the table covers it. -/
def fontDict (table : FontDictSelect) (glyph : GlyphId) : Option (Option Nat) :=
  match table with
  | .perGlyph fontDicts => return fontDicts[glyph.number]?.map UInt8.toNat
  | .byRange ranges sentinel =>
      if sentinel ≤ glyph.number then
        return none
      else do
        match ← bisect ranges glyph.number 0 ranges.size with
        | 0 => return none
        | before + 1 => return some (← ranges[before]?).fontDict

/-- The subfont of a glyph. -/
def subfont (font : Font) (glyph : GlyphId) : Strict FontDataFault Subfont := do
  let number ←
    match font.select with
    | none => pure 0
    | some select =>
        match ← fontDict select glyph with
        | none => throw (.missingFontDict glyph)
        | some number => pure number
  match font.subfonts[number]? with
  | none => throw (.invalidFontDictIndex number)
  | some subfont => return subfont

/-! ## Tables of any kind -/

theorem place_gives (offset : Nat) : Gives (place offset) (Index.place offset) fun _ => True := by
  simp only [place, Index.place]
  by_cases zero : offset = 0
  · simp only [if_pos zero, throw_bind]
    exact .error _
  · have back : minus? offset 1 = some (offset - 1) := minus?_of_le (Nat.pos_of_ne_zero zero)
    simp only [if_neg zero, back]
    exact .ok trivial

/-- Every object that an INDEX gives is a part of its data. -/
theorem object_gives (index : Index) (i : Nat) :
    Gives (object index i) (index.get i) fun _ => True := by
  simp only [object, Index.get]
  by_cases out : index.count ≤ i
  · simp only [if_pos out, throw_bind]
    exact .error _
  · simp only [if_neg out]
    refine (place_gives _).bind fun start _ => (place_gives _).bind fun stop _ => ?_
    by_cases unordered : stop < start
    · simp only [if_pos unordered, throw_bind]
      exact .error _
    · by_cases short : index.data.length < stop
      · simp only [if_neg unordered, if_pos short, throw_bind]
        exact .error _
      · have inside := slice?_of_le (Nat.le_of_not_lt unordered) (Nat.le_of_not_lt short)
        simp only [if_neg unordered, if_neg short, inside]
        exact .ok trivial

/-- Bisection among the ranges below `high` reads no other range. -/
theorem bisect_eq {ranges : Array FontDictRange} (glyph : Nat) {low high : Nat}
    (within : high ≤ ranges.size) :
    bisect ranges glyph low high = some (FontDictSelect.bisect ranges glyph low high) := by
  have read : ∀ {i}, i < high → ranges[i]? = some (ranges.getD i default) := by
    intro i below
    have there : i < ranges.size := Nat.lt_of_lt_of_le below within
    simp [there]
  fun_induction FontDictSelect.bisect ranges glyph low high with
  | case1 low high more middle before ih =>
      have inside : middle < high := by omega
      have found : ranges[(low + high) / 2]? = some (ranges.getD middle default) := read inside
      rw [bisect, if_pos more]
      simp only [found, Option.bind_eq_bind, Option.bind_some]
      rw [if_pos before]
      exact ih within read
  | case2 low high more middle after ih =>
      have inside : middle < high := by omega
      have found : ranges[(low + high) / 2]? = some (ranges.getD middle default) := read inside
      rw [bisect, if_pos more]
      simp only [found, Option.bind_eq_bind, Option.bind_some]
      rw [if_neg after]
      exact ih (by omega) fun below => read (Nat.lt_trans below inside)
  | case3 low high done =>
      rw [bisect, if_neg done]
      rfl

theorem bisect_le (ranges : Array FontDictRange) (glyph : Nat) {low high : Nat}
    (ordered : low ≤ high) : FontDictSelect.bisect ranges glyph low high ≤ high := by
  fun_induction FontDictSelect.bisect ranges glyph low high with
  | case1 low high more middle before ih => exact ih (by omega)
  | case2 low high more middle after ih =>
      have low := ih (by omega)
      omega
  | case3 low high done => exact ordered

theorem fontDict_eq (table : FontDictSelect) (glyph : GlyphId) :
    fontDict table glyph = some (table.fontDict? glyph) := by
  cases table with
  | perGlyph fontDicts => rfl
  | byRange ranges sentinel =>
      -- the range in front of the bisection point is read, if there is one
      have bound := bisect_le ranges glyph.number (Nat.zero_le ranges.size)
      simp only [fontDict, FontDictSelect.fontDict?, bisect_eq glyph.number (Nat.le_refl _)]
      by_cases beyond : sentinel ≤ glyph.number
      · simp only [if_pos beyond]
        rfl
      · simp only [if_neg beyond]
        revert bound
        generalize FontDictSelect.bisect ranges glyph.number 0 ranges.size = number
        intro bound
        cases number with
        | zero => rfl
        | succ before =>
            have there : ranges[before]? = some ranges[before] := Array.getElem?_eq_getElem bound
            show (ranges[before]?.bind fun range => some (some range.fontDict)) =
              some (ranges[before]?.map FontDictRange.fontDict)
            rw [there]
            rfl

theorem subfont_gives (font : Font) (glyph : GlyphId) :
    Gives (subfont font glyph) (font.subfont glyph) fun _ => True := by
  -- what is done with the number of the font DICT, wherever it comes from
  have last : ∀ number : Nat, Gives
      (match font.subfonts[number]? with
        | none => (throw (.invalidFontDictIndex number) : Strict FontDataFault Subfont)
        | some subfont => return subfont)
      (match font.subfonts[number]? with
        | none => (throw (.invalidFontDictIndex number) : Except FontDataFault Subfont)
        | some subfont => return subfont) fun _ => True := by
    intro number
    cases font.subfonts[number]? with
    | none => exact .error _
    | some subfont => exact .ok trivial
  simp only [subfont, Font.subfont, fontDict_eq]
  cases font.select with
  | none => exact last 0
  | some select =>
      cases found : select.fontDict? glyph with
      | none =>
          simp only [found]
          exact .error _
      | some number =>
          simp only [found]
          exact last number

end Strict

end Type2Glyphs
