import Type2Glyphs.Proofs.Index.Frame
import Type2Glyphs.Proofs.Strict.Tables

/-!
# FontDicts — what a table says about each glyph

A list of font DICTs is written glyph by glyph, or it is cut into runs and the start of each run is
written.  Both tables are read again, and looking a glyph up in either gives its entry in the list
(`FontDictSelect.fontDict_of_cut`).

A table of ranges need not come from a list, and its ranges can be in any order.  Bisection then
still ends at a range that starts at or before the glyph, if it finds one, and where the ranges are
in order it finds the last such range (`FontDictSelect.fontDict_of_ranges`).
-/

namespace Type2Glyphs

namespace FontDictRange

/-- The three bytes of a range. -/
def bytes (range : FontDictRange) : Bytes :=
  Bytes.ofNat 2 range.first ++ Bytes.ofNat 1 range.fontDict

/-- The numbers fit in the bytes they are written in. -/
structure Fits (range : FontDictRange) : Prop where
  first : range.first < 65536
  fontDict : range.fontDict < 256

theorem length_bytes (range : FontDictRange) : range.bytes.length = 3 := by
  simp [bytes]

end FontDictRange

namespace FontDictSelect

variable {ranges : List FontDictRange} {range : FontDictRange} {sentinel : Nat}

/-! ## Ranges in bytes -/

/-- The bytes of ranges one after the other. -/
def records (ranges : List FontDictRange) : Bytes :=
  ranges.flatMap FontDictRange.bytes

theorem length_records (ranges : List FontDictRange) :
    (records ranges).length = ranges.length * 3 := by
  simp [records, List.length_flatMap, FontDictRange.length_bytes]

theorem rangeTable_eq (ranges : List FontDictRange) (sentinel : Nat) :
    rangeTable ranges sentinel =
      3 :: (Bytes.ofNat 2 ranges.length ++ records ranges ++ Bytes.ofNat 2 sentinel) :=
  rfl

theorem readRanges_go (read : Array FontDictRange) (bytes : Bytes) :
    readRanges.go read bytes = read ++ readRanges bytes := by
  have collected : ∀ read earlier : Array FontDictRange,
      readRanges.go (earlier ++ read) bytes = earlier ++ readRanges.go read bytes := by
    intro read earlier
    fun_induction readRanges.go read bytes with
    | case1 read high low fontDict bytes ih =>
        rw [readRanges.go, Array.push_append, ih]
    | case2 bytes read short => rw [readRanges.go.eq_2 _ _ short]
  have start := collected #[] read
  rwa [Array.append_empty] at start

theorem readRanges_cons (high low fontDict : UInt8) (bytes : Bytes) :
    (readRanges (high :: low :: fontDict :: bytes)).toList =
      ⟨Bytes.bigEndian [high, low], fontDict.toNat⟩ :: (readRanges bytes).toList := by
  have read : readRanges (high :: low :: fontDict :: bytes) =
      readRanges.go #[⟨Bytes.bigEndian [high, low], fontDict.toNat⟩] bytes := rfl
  rw [read, readRanges_go, Array.toList_append]
  rfl

/-- Ranges are read off their bytes. -/
theorem readRanges_records (fits : ∀ range ∈ ranges, range.Fits) :
    readRanges (records ranges) = ranges.toArray := by
  have listed : (readRanges (records ranges)).toList = ranges := by
    induction ranges with
    | nil => rfl
    | cons range ranges ih =>
        obtain ⟨⟨first, fontDict⟩, rest⟩ := List.forall_mem_cons.1 fits
        have number : Bytes.bigEndian [UInt8.ofNat (range.first / 256), UInt8.ofNat range.first] =
            range.first :=
          (Bytes.bigEndian_ofNat 2 range.first).trans (Nat.mod_eq_of_lt first)
        have byte : (UInt8.ofNat range.fontDict).toNat = range.fontDict := by
          rw [UInt8.toNat_ofNat', Nat.mod_eq_of_lt fontDict]
        have spelled : records (range :: ranges) =
            UInt8.ofNat (range.first / 256) :: UInt8.ofNat range.first ::
              UInt8.ofNat range.fontDict :: records ranges := rfl
        rw [spelled, readRanges_cons, ih rest, number, byte]
  rw [← listed, Array.toArray_toList, listed]

/-- The bytes off which ranges are read are theirs. -/
theorem records_readRanges {count : Nat} {bytes : Bytes} (length : bytes.length = count * 3) :
    records (readRanges bytes).toList = bytes ∧ (readRanges bytes).toList.length = count ∧
      ∀ range ∈ (readRanges bytes).toList, range.Fits := by
  induction count generalizing bytes with
  | zero =>
      rw [Nat.zero_mul] at length
      obtain rfl := List.length_eq_zero_iff.1 length
      exact ⟨rfl, rfl, nofun⟩
  | succ count ih =>
      obtain ⟨high, low, fontDict, bytes, rfl⟩ :
          ∃ high low fontDict rest, bytes = high :: low :: fontDict :: rest := by
        match bytes with
        | high :: low :: fontDict :: rest => exact ⟨high, low, fontDict, rest, rfl⟩
        | [] | [_] | [_, _] => simp at length <;> omega
      have shorter : bytes.length = count * 3 := by
        simp only [List.length_cons] at length
        omega
      obtain ⟨spelled, number, fits⟩ := ih shorter
      have first : Bytes.ofNat 2 (Bytes.bigEndian [high, low]) = [high, low] :=
        Bytes.ofNat_bigEndian [high, low]
      have last : Bytes.ofNat 1 fontDict.toNat = [fontDict] := by
        simp [Bytes.ofNat]
      have small : Bytes.bigEndian [high, low] < 65536 := by
        have reread := Bytes.bigEndian_ofNat 2 (Bytes.bigEndian [high, low])
        rw [first] at reread
        omega
      rw [readRanges_cons]
      refine ⟨?_, by rw [List.length_cons, number], ?_⟩
      · rw [records, List.flatMap_cons, FontDictRange.bytes, first, last]
        exact congrArg (fun rest => high :: low :: fontDict :: rest) spelled
      · exact List.forall_mem_cons.2 ⟨⟨small, fontDict.toNat_lt⟩, fits⟩

/-! ## Reading what was written -/

theorem parse_listTable (fontDicts rest : Bytes) :
    parse (listTable fontDicts ++ rest) fontDicts.length = .ok (.perGlyph fontDicts) := by
  have format : (listTable fontDicts ++ rest).uint? 1 = some (0, fontDicts ++ rest) :=
    Bytes.uint?_ofNat_append 1 0 (fontDicts ++ rest)
  have entries : (fontDicts ++ rest).split? fontDicts.length = some (fontDicts, rest) :=
    Bytes.split?_append rest
  simp only [parse, bind, Except.bind, format, entries, FontDataFault.demand]
  rfl

/-- A table of ranges is read off its own bytes. -/
theorem parse_rangeTable (countable : ranges.length < 65536) (fits : ∀ range ∈ ranges, range.Fits)
    (ends : sentinel < 65536) (rest : Bytes) (glyphCount : Nat) :
    parse (rangeTable ranges sentinel ++ rest) glyphCount =
      .ok (.byRange ranges.toArray sentinel) := by
  have format : (rangeTable ranges sentinel ++ rest).uint? 1 = some (3,
      Bytes.ofNat 2 ranges.length ++ (records ranges ++ (Bytes.ofNat 2 sentinel ++ rest))) := by
    rw [← List.append_assoc (records ranges), ← List.append_assoc, ← List.append_assoc]
    exact Bytes.uint?_ofNat_append 1 3 _
  have count : (Bytes.ofNat 2 ranges.length ++ (records ranges ++
      (Bytes.ofNat 2 sentinel ++ rest))).uint? 2 =
        some (ranges.length, records ranges ++ (Bytes.ofNat 2 sentinel ++ rest)) :=
    Bytes.uint?_eq_some_iff.2 ⟨countable, rfl⟩
  have cut : (records ranges ++ (Bytes.ofNat 2 sentinel ++ rest)).split? (ranges.length * 3) =
      some (records ranges, Bytes.ofNat 2 sentinel ++ rest) :=
    Bytes.split?_eq_some_iff.2 ⟨length_records ranges, rfl⟩
  have ending : (Bytes.ofNat 2 sentinel ++ rest).uint? 2 = some (sentinel, rest) :=
    Bytes.uint?_eq_some_iff.2 ⟨ends, rfl⟩
  simp only [parse, bind, Except.bind, format, count, cut, ending, FontDataFault.demand,
    readRanges_records fits]
  rfl

/-- What is read as a table of ranges are the bytes of one, and what follows. -/
theorem eq_of_parse {bytes : Bytes} {glyphCount : Nat} {table : FontDictSelect}
    (parsed : parse (3 :: bytes) glyphCount = .ok table) :
    ∃ ranges sentinel rest, table = .byRange ranges sentinel ∧
      (∀ range ∈ ranges.toList, range.Fits) ∧
      3 :: bytes = rangeTable ranges.toList sentinel ++ rest := by
  obtain ⟨read, formatting, formatted⟩ := Except.bind_eq_ok.1 parsed
  have three : Bytes.uint? 1 (3 :: bytes) = some (3, bytes) := Bytes.uint?_ofNat_append 1 3 bytes
  obtain rfl := Option.some.inj ((FontDataFault.demand_eq_ok.1 formatting).symm.trans three)
  obtain ⟨⟨count, rest⟩, counting, counted⟩ := Except.bind_eq_ok.1 formatted
  obtain ⟨_, rfl⟩ := Bytes.uint?_eq_some_iff.1 (FontDataFault.demand_eq_ok.1 counting)
  obtain ⟨⟨bytes, rest⟩, cutting, cut⟩ := Except.bind_eq_ok.1 counted
  obtain ⟨length, rfl⟩ := Bytes.split?_eq_some_iff.1 (FontDataFault.demand_eq_ok.1 cutting)
  obtain ⟨⟨sentinel, rest⟩, ending, ended⟩ := Except.bind_eq_ok.1 cut
  obtain ⟨_, rfl⟩ := Bytes.uint?_eq_some_iff.1 (FontDataFault.demand_eq_ok.1 ending)
  cases ended
  obtain ⟨spelled, number, fits⟩ := records_readRanges length
  refine ⟨readRanges bytes, sentinel, rest, rfl, fits, ?_⟩
  rw [rangeTable_eq, number, spelled, List.cons_append, List.append_assoc, List.append_assoc]

/-! ## The last range in front of a glyph -/

/-- The last range that starts at or before the glyph. -/
def covering? (ranges : List FontDictRange) (glyph : Nat) : Option FontDictRange :=
  (ranges.filter fun range => range.first ≤ glyph).getLast?

theorem covering_eq_none_iff {glyph : Nat} :
    covering? ranges glyph = none ↔ ∀ range ∈ ranges, glyph < range.first := by
  simp [covering?]

theorem covering_cons {glyph : Nat} (starts : range.first ≤ glyph) :
    covering? (range :: ranges) glyph = some ((covering? ranges glyph).getD range) := by
  simp only [covering?, List.filter_cons, starts, decide_true, if_true, List.getLast?_cons]

/-! ## Bisection -/

section Bisection

variable {table : Array FontDictRange} {glyph low high : Nat}

/-- The first glyph of the range with the given number. -/
def firstOf (table : Array FontDictRange) (i : Nat) : Nat :=
  (table.getD i default).first

/-- The ranges in front of `low` start at or before the glyph, and those from `high` on do not. -/
structure Parted (table : Array FontDictRange) (glyph low high : Nat) : Prop where
  ordered : low ≤ high
  within : high ≤ table.size
  before : ∀ i < low, firstOf table i ≤ glyph
  after : ∀ i < table.size, high ≤ i → glyph < firstOf table i

/-- Ranges come in the order of their first glyphs. -/
def Ordered (table : Array FontDictRange) : Prop :=
  table.toList.Pairwise fun range later => range.first ≤ later.first

theorem firstOf_eq {i : Nat} (inside : i < table.size) : firstOf table i = table[i].first := by
  simp [firstOf, inside]

theorem Ordered.le (ordered : Ordered table) {i j : Nat} (le : i ≤ j) (inside : j < table.size) :
    firstOf table i ≤ firstOf table j := by
  rcases Nat.lt_or_eq_of_le le with less | rfl
  · rw [firstOf_eq inside, firstOf_eq (Nat.lt_trans less inside)]
    exact List.pairwise_iff_getElem.1 ordered i j (Nat.lt_trans less inside) inside less
  · exact Nat.le_refl _

/-- In any table, the range in front of the bisection point starts at or before the glyph. -/
theorem bisect_before (reached : ∀ i, low = i + 1 → firstOf table i ≤ glyph) :
    ∀ i, bisect table glyph low high = i + 1 → firstOf table i ≤ glyph := by
  fun_induction bisect table glyph low high with
  | case1 low high more middle before ih =>
      refine ih ?_
      rintro i same
      obtain rfl : middle = i := Nat.succ.inj same
      exact before
  | case2 low high more middle after ih => exact ih reached
  | case3 low high done => exact reached

/-- In an ordered table, the bisection point parts the ranges. -/
theorem parted_bisect (ordered : Ordered table) (parted : Parted table glyph low high) :
    Parted table glyph (bisect table glyph low high) (bisect table glyph low high) := by
  fun_induction bisect table glyph low high with
  | case1 low high more middle before ih =>
      have inside : middle < table.size := by
        have within := parted.within
        omega
      refine ih ⟨by omega, parted.within, fun i less => ?_, parted.after⟩
      exact Nat.le_trans (ordered.le (Nat.le_of_lt_succ less) inside) before
  | case2 low high more middle after ih =>
      have within := parted.within
      refine ih ⟨by omega, by omega, parted.before, fun i inside le => ?_⟩
      exact Nat.lt_of_lt_of_le (Nat.lt_of_not_le after) (ordered.le le inside)
  | case3 low high done =>
      obtain rfl : low = high := Nat.le_antisymm parted.ordered (Nat.le_of_not_lt done)
      exact parted

theorem covering_of_parted {point : Nat} (parted : Parted table glyph point point) :
    covering? table.toList glyph = (table.toList.take point).getLast? := by
  have before : (table.toList.take point).filter (fun range => range.first ≤ glyph) =
      table.toList.take point := by
    refine List.filter_eq_self.2 fun range listed => decide_eq_true ?_
    obtain ⟨i, less, rfl⟩ := List.mem_take_iff_getElem.1 listed
    have inside : i < table.size := Nat.lt_of_lt_of_le less (Nat.min_le_right _ _)
    have first := parted.before i (Nat.lt_of_lt_of_le less (Nat.min_le_left _ _))
    rwa [firstOf_eq inside] at first
  have after : (table.toList.drop point).filter (fun range => range.first ≤ glyph) = [] := by
    refine List.filter_eq_nil_iff.2 fun range listed starts => ?_
    obtain ⟨i, less, rfl⟩ := List.mem_drop_iff_getElem.1 listed
    have inside : point + i < table.size := by
      rw [Array.length_toList] at less
      omega
    have first := parted.after (point + i) inside (Nat.le_add_right point i)
    rw [firstOf_eq inside] at first
    exact Nat.not_le_of_lt first (of_decide_eq_true starts)
  rw [covering?, ← List.take_append_drop point table.toList, List.filter_append, before, after,
    List.append_nil, List.take_append_drop]

/-- What is looked up among ranges is what stands in front of the bisection point. -/
theorem fontDict_byRange (glyph : GlyphId) :
    (FontDictSelect.byRange table sentinel).fontDict? glyph =
      if sentinel ≤ glyph.number then none
      else (table.toList.take (bisect table glyph.number 0 table.size)).getLast?.map
        FontDictRange.fontDict := by
  have bound := Strict.bisect_le table glyph.number (Nat.zero_le table.size)
  simp only [fontDict?]
  revert bound
  generalize bisect table glyph.number 0 table.size = point
  intro bound
  cases point with
  | zero => rfl
  | succ before =>
      have there : table[before]? = some table[before] := Array.getElem?_eq_getElem bound
      have listed : table.toList[before]? = some table[before] := by
        rw [Array.getElem?_toList, there]
      rw [List.getLast?_take, if_neg (Nat.succ_ne_zero before), Nat.add_sub_cancel, listed]
      simp only [there, Option.map_some, Option.some_or]

/-- In an ordered table, the last range that starts at or before the glyph is found. -/
theorem fontDict_of_ordered (ordered : Ordered table) (glyph : GlyphId) :
    (FontDictSelect.byRange table sentinel).fontDict? glyph =
      if sentinel ≤ glyph.number then none
      else (covering? table.toList glyph.number).map FontDictRange.fontDict := by
  have start : Parted table glyph.number 0 table.size :=
    ⟨Nat.zero_le _, Nat.le_refl _, nofun, fun i inside beyond =>
      absurd inside (Nat.not_lt_of_le beyond)⟩
  rw [fontDict_byRange, covering_of_parted (parted_bisect ordered start)]

/-- In any table, only a range that starts at or before the glyph is found. -/
theorem fontDict_of_some {number : Nat} {glyph : GlyphId}
    (found : (FontDictSelect.byRange table sentinel).fontDict? glyph = some number) :
    glyph.number < sentinel ∧
      ∃ range ∈ table, range.first ≤ glyph.number ∧ range.fontDict = number := by
  have bound := Strict.bisect_le table glyph.number (Nat.zero_le table.size)
  have reached : ∀ i, bisect table glyph.number 0 table.size = i + 1 →
      firstOf table i ≤ glyph.number := bisect_before nofun
  simp only [fontDict?] at found
  split at found
  · cases found
  · next covered =>
      refine ⟨Nat.lt_of_not_le covered, ?_⟩
      split at found
      · cases found
      · next before point =>
          rw [point] at bound
          rw [Array.getElem?_eq_getElem bound] at found
          have first := reached before point
          rw [firstOf_eq bound] at first
          exact ⟨table[before], Array.getElem_mem bound, first, Option.some.inj found⟩

end Bisection

/-! ## Runs -/

/-- The list is cut into runs, each of one font DICT. -/
structure Cut (fontDicts : Bytes) (runs : List Bytes) : Prop where
  whole : runs.flatten = fontDicts
  nonempty : ∀ run ∈ runs, run ≠ []
  constant : ∀ run ∈ runs, ∀ fontDict ∈ run, ∀ other ∈ run, fontDict = other

/-- The ranges of runs that come one after the other from a glyph on. -/
def rangesFrom (first : Nat) : List Bytes → List FontDictRange
  | [] => []
  | run :: runs => ⟨first, (run.headD 0).toNat⟩ :: rangesFrom (first + run.length) runs

section Runs

variable {runs : List Bytes} {fontDicts : Bytes} {first : Nat}

theorem Cut.tail {run : Bytes} (cut : Cut fontDicts (run :: runs)) : Cut runs.flatten runs :=
  ⟨rfl, (List.forall_mem_cons.1 cut.nonempty).2, (List.forall_mem_cons.1 cut.constant).2⟩

/-- Any entry of a run says which font DICT it has. -/
theorem Cut.head {run : Bytes} (cut : Cut fontDicts (run :: runs)) {i : Nat}
    (inside : i < run.length) : run[i]? = some (run.headD 0) := by
  have constant := (List.forall_mem_cons.1 cut.constant).1
  cases run with
  | nil => exact absurd inside (Nat.not_lt_zero i)
  | cons fontDict run =>
      rw [List.getElem?_eq_getElem inside]
      exact congrArg some (constant _ (List.getElem_mem inside) _ List.mem_cons_self)

theorem length_rangesFrom (first : Nat) (runs : List Bytes) :
    (rangesFrom first runs).length = runs.length := by
  induction runs generalizing first with
  | nil => rfl
  | cons run runs ih => rw [rangesFrom, List.length_cons, List.length_cons, ih]

theorem mem_rangesFrom (cut : Cut fontDicts runs) (listed : range ∈ rangesFrom first runs) :
    first ≤ range.first ∧ range.first < first + fontDicts.length ∧ range.fontDict < 256 := by
  induction runs generalizing first fontDicts with
  | nil => cases listed
  | cons run runs ih =>
      obtain rfl := cut.whole
      have some : 0 < run.length :=
        List.length_pos_iff.2 (cut.nonempty run List.mem_cons_self)
      rw [List.flatten_cons, List.length_append]
      rcases List.mem_cons.1 listed with rfl | listed
      · exact ⟨Nat.le_refl _, by simp only; omega, UInt8.toNat_lt _⟩
      · obtain ⟨lower, upper, byte⟩ := ih cut.tail listed
        exact ⟨by omega, by omega, byte⟩

theorem ordered_rangesFrom (cut : Cut fontDicts runs) (first : Nat) :
    (rangesFrom first runs).Pairwise fun range later => range.first ≤ later.first := by
  induction runs generalizing first fontDicts with
  | nil => exact .nil
  | cons run runs ih =>
      refine .cons (fun range listed => ?_) (ih cut.tail _)
      exact Nat.le_trans (Nat.le_add_right _ _) (mem_rangesFrom cut.tail listed).1

/-- There are at most as many runs as glyphs. -/
theorem length_runs (cut : Cut fontDicts runs) : runs.length ≤ fontDicts.length := by
  induction runs generalizing fontDicts with
  | nil => exact Nat.zero_le _
  | cons run runs ih =>
      obtain rfl := cut.whole
      have some : 0 < run.length :=
        List.length_pos_iff.2 (cut.nonempty run List.mem_cons_self)
      have rest := ih cut.tail
      rw [List.flatten_cons, List.length_append, List.length_cons]
      omega

/-- The run that a glyph is in starts with the last range at or before it. -/
theorem covering_rangesFrom (first : Nat) (cut : Cut fontDicts runs) {i : Nat}
    (inside : i < fontDicts.length) :
    (covering? (rangesFrom first runs) (first + i)).map FontDictRange.fontDict =
      fontDicts[i]?.map UInt8.toNat := by
  induction runs generalizing first fontDicts i with
  | nil =>
      obtain rfl := cut.whole
      exact absurd inside (Nat.not_lt_zero i)
  | cons run runs ih =>
      obtain rfl := cut.whole
      rw [List.flatten_cons, List.length_append] at inside
      rw [rangesFrom, covering_cons (Nat.le_add_right first i), List.flatten_cons]
      by_cases here : i < run.length
      · have later : covering? (rangesFrom (first + run.length) runs) (first + i) = none := by
          refine covering_eq_none_iff.2 fun range listed => ?_
          have lower := (mem_rangesFrom cut.tail listed).1
          omega
        rw [later, List.getElem?_append_left here, cut.head here]
        rfl
      · -- the rest of the list has the glyph, so a later range starts at or before it
        obtain ⟨i, rfl⟩ := Nat.exists_eq_add_of_le (Nat.le_of_not_lt here)
        have inside : i < runs.flatten.length := by omega
        have rest := ih (first + run.length) cut.tail inside
        rw [Nat.add_assoc, List.getElem?_eq_getElem inside] at rest
        obtain ⟨range, found, same⟩ := Option.map_eq_some_iff.1 rest
        rw [found, List.getElem?_append_right (Nat.le_add_right _ _), Nat.add_sub_cancel_left,
          List.getElem?_eq_getElem inside]
        exact congrArg some same

/-- The table of the runs gives each glyph its entry in the list. -/
theorem fontDict_rangesFrom (cut : Cut fontDicts runs) (glyph : GlyphId) :
    (FontDictSelect.byRange (rangesFrom 0 runs).toArray fontDicts.length).fontDict? glyph =
      fontDicts[glyph.number]?.map UInt8.toNat := by
  have ordered : Ordered (rangesFrom 0 runs).toArray := ordered_rangesFrom cut 0
  rw [fontDict_of_ordered ordered]
  by_cases beyond : fontDicts.length ≤ glyph.number
  · rw [if_pos beyond, List.getElem?_eq_none beyond]
    rfl
  · have covered := covering_rangesFrom 0 cut (Nat.lt_of_not_le beyond)
    rw [Nat.zero_add] at covered
    rw [if_neg beyond]
    exact covered

/-- The table of the runs is read off its own bytes. -/
theorem parse_rangesFrom (cut : Cut fontDicts runs) (countable : fontDicts.length ≤ 65535)
    (rest : Bytes) (glyphCount : Nat) :
    parse (rangeTable (rangesFrom 0 runs) fontDicts.length ++ rest) glyphCount =
      .ok (.byRange (rangesFrom 0 runs).toArray fontDicts.length) := by
  have count := length_runs cut
  refine parse_rangeTable ?_ (fun range listed => ?_) (Nat.lt_succ_of_le countable) rest glyphCount
  · rw [length_rangesFrom]
    omega
  · obtain ⟨_, upper, byte⟩ := mem_rangesFrom cut listed
    exact ⟨by omega, byte⟩

end Runs

/-- A list of font DICTs and any cut of it into runs make two tables that both give each glyph its
entry in the list.  In any table of ranges only a range that starts at or before the glyph is found,
in front of the sentinel, and in an ordered one it is the last such range. -/
theorem fontDict_encoded :
    (∀ fontDicts runs rest rest', Cut fontDicts runs → fontDicts.length ≤ 65535 →
      ∃ list ranges, parse (listTable fontDicts ++ rest) fontDicts.length = .ok list ∧
        parse (rangeTable (rangesFrom 0 runs) fontDicts.length ++ rest') fontDicts.length =
          .ok ranges ∧
        ∀ glyph : GlyphId, list.fontDict? glyph = fontDicts[glyph.number]?.map UInt8.toNat ∧
          ranges.fontDict? glyph = fontDicts[glyph.number]?.map UInt8.toNat) ∧
    ∀ bytes glyphCount table, parse (3 :: bytes) glyphCount = .ok table →
      ∃ ranges sentinel rest, table = .byRange ranges sentinel ∧
        (∀ range ∈ ranges.toList, range.Fits) ∧
        3 :: bytes = rangeTable ranges.toList sentinel ++ rest ∧
        ∀ glyph, Strict.fontDict table glyph = some (table.fontDict? glyph) ∧
          (∀ number, table.fontDict? glyph = some number → glyph.number < sentinel ∧
            ∃ range ∈ ranges, range.first ≤ glyph.number ∧ range.fontDict = number) ∧
          (Ordered ranges →
            (table.fontDict? glyph = none ↔
              sentinel ≤ glyph.number ∨ ∀ range ∈ ranges, glyph.number < range.first) ∧
            (glyph.number < sentinel → table.fontDict? glyph =
              (covering? ranges.toList glyph.number).map FontDictRange.fontDict)) := by
  constructor
  · intro fontDicts runs rest rest' cut countable
    exact ⟨_, _, parse_listTable fontDicts rest, parse_rangesFrom cut countable rest' _,
      fun glyph => ⟨rfl, fontDict_rangesFrom cut glyph⟩⟩
  · intro bytes glyphCount table parsed
    obtain ⟨ranges, sentinel, rest, rfl, fits, spelled⟩ := eq_of_parse parsed
    refine ⟨ranges, sentinel, rest, rfl, fits, spelled, fun glyph =>
      ⟨Strict.fontDict_eq _ glyph, fun number => fontDict_of_some, fun ordered => ?_⟩⟩
    rw [fontDict_of_ordered ordered]
    by_cases beyond : sentinel ≤ glyph.number
    · rw [if_pos beyond]
      exact ⟨iff_of_true rfl (.inl beyond), fun before => absurd beyond (Nat.not_le_of_lt before)⟩
    · rw [if_neg beyond, Option.map_eq_none_iff, covering_eq_none_iff]
      refine ⟨?_, fun _ => rfl⟩
      rw [or_iff_right beyond]
      exact forall_congr' fun range => imp_congr_left Array.mem_toList_iff

/-- Three glyphs in two runs, and ranges of which the second starts before the first. -/
theorem fontDict_encoded_runs :
    (∃ list ranges, parse (listTable [4, 4, 1] ++ [9]) 3 = .ok list ∧
      parse (rangeTable (rangesFrom 0 [[4, 4], [1]]) 3 ++ []) 3 = .ok ranges ∧
      ∀ glyph : GlyphId, list.fontDict? glyph = [4, 4, 1][glyph.number]?.map UInt8.toNat ∧
        ranges.fontDict? glyph = [4, 4, 1][glyph.number]?.map UInt8.toNat) ∧
    ∃ ranges sentinel, parse [3, 0, 2, 0, 5, 7, 0, 2, 8, 0, 9] 9 = .ok (.byRange ranges sentinel) ∧
      (FontDictSelect.byRange ranges sentinel).fontDict? ⟨6⟩ = some 8 ∧
      ∃ range ∈ ranges, range.first ≤ 6 ∧ range.fontDict = 8 := by
  have cut : Cut [4, 4, 1] [[4, 4], [1]] := ⟨rfl, by simp, by simp⟩
  refine ⟨fontDict_encoded.1 [4, 4, 1] [[4, 4], [1]] [9] [] cut (by decide), ?_⟩
  have parsed : parse [3, 0, 2, 0, 5, 7, 0, 2, 8, 0, 9] 9 =
      .ok (.byRange #[⟨5, 7⟩, ⟨2, 8⟩] 9) := by
    decide +kernel
  obtain ⟨ranges, sentinel, rest, same, _, _, lookups⟩ := fontDict_encoded.2 _ 9 _ parsed
  cases same
  have found : (FontDictSelect.byRange #[⟨5, 7⟩, ⟨2, 8⟩] 9).fontDict? ⟨6⟩ = some 8 := by
    decide +kernel
  exact ⟨_, _, parsed, found, ((lookups ⟨6⟩).2.1 8 found).2⟩

end FontDictSelect

end Type2Glyphs
