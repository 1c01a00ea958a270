import Type2Glyphs.Proofs.Index.Frame

/-!
# RoundTrip — an INDEX that is written is read again, and the other way round

Objects that are written as an INDEX are read off it again, whatever follows it, if the offsets are
large enough for the end of the data (`Index.suits_of_small`), and not otherwise
(`Index.small_of_suits`).  The smallest such size of an offset is the one that
`Index.layOutSmallest` takes.

In the other direction, an INDEX whose objects can all be read and start with the data is written
again by the same bytes (`Index.layOut_of_get`).
-/

namespace Type2Glyphs

/-! ## Tables of numbers -/

namespace Bytes

/-- A number is read off its place in a table. -/
theorem take_drop_numerals {size i number : Nat} {numbers : List Nat}
    (listed : numbers[i]? = some number) :
    ((numbers.flatMap (ofNat size)).drop (i * size)).take size = ofNat size number := by
  induction numbers generalizing i with
  | nil => simp at listed
  | cons first numbers ih =>
      rw [List.flatMap_cons]
      cases i with
      | zero =>
          obtain rfl : first = number := by simpa using listed
          rw [Nat.zero_mul, List.drop_zero]
          exact List.take_left' (length_ofNat size first)
      | succ i =>
          have beyond : (i + 1) * size = (ofNat size first).length + i * size := by
            rw [length_ofNat, Nat.succ_mul, Nat.add_comm]
          rw [beyond, ← List.drop_drop, List.drop_left]
          exact ih (by simpa using listed)

/-- A table is written by the numbers that are read off it. -/
theorem flatMap_ofNat_eq {size : Nat} {numbers : List Nat} {bytes : Bytes}
    (length : bytes.length = numbers.length * size)
    (read : ∀ i number, numbers[i]? = some number →
      bigEndian ((bytes.drop (i * size)).take size) = number) :
    numbers.flatMap (ofNat size) = bytes := by
  induction numbers generalizing bytes with
  | nil =>
      rw [List.length_nil, Nat.zero_mul] at length
      rw [List.length_eq_zero_iff.1 length, List.flatMap_nil]
  | cons first numbers ih =>
      rw [List.length_cons, Nat.succ_mul] at length
      have front : ofNat size first = bytes.take size := by
        have written := ofNat_bigEndian (bytes.take size)
        have spelled := read 0 first rfl
        rw [Nat.zero_mul, List.drop_zero] at spelled
        rw [spelled, List.length_take_of_le (by omega)] at written
        exact written
      have rest : numbers.flatMap (ofNat size) = bytes.drop size := by
        refine ih ?_ ?_
        · rw [List.length_drop]
          omega
        · intro i number listed
          rw [List.drop_drop, Nat.add_comm, ← Nat.succ_mul]
          exact read (i + 1) number (by simpa using listed)
      rw [List.flatMap_cons, front, rest, List.take_append_drop]

end Bytes

namespace Index

/-! ## Offsets of objects -/

/-- The offsets of objects of which the first one starts at `start`. -/
def offsetsFrom (start : Nat) : List Bytes → List Nat
  | [] => [start]
  | object :: objects => start :: offsetsFrom (start + object.length) objects

theorem offsetsOf_eq (objects : List Bytes) : offsetsOf objects = offsetsFrom 1 objects := by
  -- the offsets are collected from the last one on, so those that there are already come first
  have collected : ∀ (objects : List Bytes) (last : Nat) (before : List Nat),
      (objects.foldl (fun offsets object => (offsets.headD 1 + object.length) :: offsets)
        (last :: before)).reverse = before.reverse ++ offsetsFrom last objects := by
    intro objects
    induction objects with
    | nil => simp [offsetsFrom]
    | cons object objects ih =>
        intro last before
        rw [List.foldl_cons, List.headD_cons, ih]
        simp [offsetsFrom]
  exact collected objects 1 []

theorem length_offsetsFrom (start : Nat) (objects : List Bytes) :
    (offsetsFrom start objects).length = objects.length + 1 := by
  induction objects generalizing start with
  | nil => rfl
  | cons object objects ih => simp [offsetsFrom, ih]

/-- An offset counts the objects before it. -/
theorem getElem?_offsetsFrom (start : Nat) {objects : List Bytes} {i : Nat}
    (within : i ≤ objects.length) :
    (offsetsFrom start objects)[i]? = some (start + (objects.take i).flatten.length) := by
  induction objects generalizing start i with
  | nil =>
      obtain rfl : i = 0 := Nat.le_zero.1 within
      rfl
  | cons object objects ih =>
      cases i with
      | zero => rfl
      | succ i =>
          have later := ih (start + object.length) (Nat.le_of_succ_le_succ within)
          simp only [offsetsFrom, List.getElem?_cons_succ, later, List.take_succ_cons,
            List.flatten_cons, List.length_append, Nat.add_assoc]

theorem totalLength_eq (objects : List Bytes) :
    totalLength objects = objects.flatten.length := by
  have summed : ∀ (objects : List Bytes) (total : Nat),
      objects.foldl (fun total object => total + object.length) total =
        total + objects.flatten.length := by
    intro objects
    induction objects with
    | nil => simp
    | cons object objects ih =>
        intro total
        rw [List.foldl_cons, ih, List.flatten_cons, List.length_append, Nat.add_assoc]
  rw [totalLength, summed, Nat.zero_add]

/-! ## Reading objects -/

/-- An object is read from between its two offsets. -/
theorem get_eq_ok_iff {index : Index} {i : Nat} {object : Bytes} :
    index.get i = .ok object ↔ i < index.count ∧ ∃ start stop, index.offset i = start + 1 ∧
      index.offset (i + 1) = stop + 1 ∧ start ≤ stop ∧ stop ≤ index.data.length ∧
        object = (index.data.drop start).take (stop - start) := by
  constructor
  · intro h
    unfold get at h
    split at h
    · cases h
    obtain ⟨start, starting, h⟩ := Except.bind_eq_ok.1 h
    obtain ⟨stop, stopping, h⟩ := Except.bind_eq_ok.1 h
    dsimp only at h
    split at h
    · cases h
    split at h
    · cases h
    cases h
    exact ⟨by omega, start, stop, place_eq_ok_iff.1 starting, place_eq_ok_iff.1 stopping,
      by omega, by omega, rfl⟩
  · rintro ⟨below, start, stop, starting, stopping, ordered, inside, rfl⟩
    unfold get
    rw [if_neg (by omega), place_eq_ok_iff.2 starting, place_eq_ok_iff.2 stopping]
    simp only [bind, Except.bind]
    rw [if_neg (by omega), if_neg (by omega)]
    rfl

theorem get_of_count_le {index : Index} {i : Nat} (beyond : index.count ≤ i) :
    index.get i = .error .outOfBounds := by
  unfold get
  rw [if_pos beyond]
  rfl

/-- An INDEX that holds the objects, and nothing beyond them, and takes so many bytes. -/
structure Holds (index : Index) (objects : List Bytes) (size : Nat) : Prop where
  count : index.count = objects.length
  get : ∀ (i : Nat) (h : i < objects.length), index.get i = .ok objects[i]
  beyond : ∀ i, objects.length ≤ i → index.get i = .error .outOfBounds
  size : index.size = size

/-! ## Writing objects -/

/-- The INDEX of the objects, with offsets of the given size. -/
def ofObjects (offsetSize : Nat) (objects : List Bytes) : Index :=
  ⟨objects.length, offsetSize, (offsetsOf objects).flatMap (Bytes.ofNat offsetSize),
    objects.flatten⟩

section Written

variable {offsetSize : Nat} {objects : List Bytes}

theorem layOut_nil (offsetSize : Nat) : layOut offsetSize [] = .ok [0, 0] :=
  rfl

theorem layOut_eq_bytes (some : objects ≠ []) (size_pos : 1 ≤ offsetSize)
    (size_le : offsetSize ≤ 4) :
    layOut offsetSize objects = .ok (ofObjects offsetSize objects).bytes := by
  have isEmpty : objects.isEmpty = false := by simpa using some
  simp only [layOut, isEmpty, Bool.false_eq_true, if_false]
  rw [if_neg (by omega)]
  rfl

theorem offset_ofObjects {i : Nat} (within : i ≤ objects.length) :
    (ofObjects offsetSize objects).offset i =
      (1 + (objects.take i).flatten.length) % 256 ^ offsetSize := by
  have listed := getElem?_offsetsFrom 1 within
  rw [← offsetsOf_eq] at listed
  simp only [offset, ofObjects, Bytes.take_drop_numerals listed, Bytes.bigEndian_ofNat]

/-- Offsets that are large enough for the end of the data are so for all objects. -/
theorem offset_of_small (small : 1 + objects.flatten.length < 256 ^ offsetSize) {i : Nat}
    (within : i ≤ objects.length) :
    (ofObjects offsetSize objects).offset i = 1 + (objects.take i).flatten.length := by
  have split := congrArg (fun objects => objects.flatten.length) (List.take_append_drop i objects)
  simp only [List.flatten_append, List.length_append] at split
  rw [offset_ofObjects within, Nat.mod_eq_of_lt (by omega)]

theorem length_offsets_ofObjects (offsetSize : Nat) (objects : List Bytes) :
    (ofObjects offsetSize objects).offsets.length = (objects.length + 1) * offsetSize := by
  have table : ∀ numbers : List Nat,
      (numbers.flatMap (Bytes.ofNat offsetSize)).length = numbers.length * offsetSize := by
    intro numbers
    simp
  simp only [ofObjects, table, offsetsOf_eq, length_offsetsFrom]

theorem framed_ofObjects (some : objects ≠ []) (countable : objects.length ≤ 65535)
    (size_pos : 1 ≤ offsetSize) (size_le : offsetSize ≤ 4)
    (small : 1 + objects.flatten.length < 256 ^ offsetSize) :
    (ofObjects offsetSize objects).Framed where
  some := List.length_pos_iff.2 some
  countable := Nat.lt_succ_of_le countable
  size_pos := size_pos
  size_le := size_le
  offsets := length_offsets_ofObjects offsetSize objects
  data := by
    have last := offset_of_small small (Nat.le_refl objects.length)
    rw [List.take_length, Nat.add_comm] at last
    exact last

/-- What is between the offsets of an object is that object. -/
theorem take_drop_flatten {i : Nat} (h : i < objects.length) :
    (objects.flatten.drop (objects.take i).flatten.length).take objects[i].length =
      objects[i] := by
  have split : objects.flatten =
      (objects.take i).flatten ++ (objects[i] ++ (objects.drop (i + 1)).flatten) := by
    rw [← List.flatten_cons, ← List.flatten_append, List.getElem_cons_drop,
      List.take_append_drop]
  rw [split, List.drop_left, List.take_left]

theorem length_flatten_take_succ {i : Nat} (h : i < objects.length) :
    (objects.take (i + 1)).flatten.length =
      (objects.take i).flatten.length + objects[i].length := by
  rw [List.take_succ_eq_append_getElem h, List.flatten_append, List.length_append]
  simp

theorem holds_ofObjects (some : objects ≠ []) (countable : objects.length ≤ 65535)
    (size_pos : 1 ≤ offsetSize) (size_le : offsetSize ≤ 4)
    (small : 1 + objects.flatten.length < 256 ^ offsetSize) :
    (ofObjects offsetSize objects).Holds objects (ofObjects offsetSize objects).bytes.length where
  count := rfl
  get := by
    intro i h
    have stop := length_flatten_take_succ h
    have split := congrArg (fun objects => objects.flatten.length)
      (List.take_append_drop (i + 1) objects)
    simp only [List.flatten_append, List.length_append] at split
    refine get_eq_ok_iff.2 ⟨h, (objects.take i).flatten.length,
      (objects.take (i + 1)).flatten.length, ?_, ?_, by omega, ?_, ?_⟩
    · rw [offset_of_small small (Nat.le_of_lt h), Nat.add_comm]
    · rw [offset_of_small small h, Nat.add_comm]
    · show _ ≤ objects.flatten.length
      omega
    · rw [stop, Nat.add_sub_cancel_left]
      exact (take_drop_flatten h).symm
  beyond _ beyond := get_of_count_le beyond
  size := (length_bytes_of_framed
    (framed_ofObjects some countable size_pos size_le small)).symm

end Written

/-! ## Sizes of offsets -/

/-- With offsets of that size the objects can be written, and are read again whatever follows. -/
def Suits (objects : List Bytes) (offsetSize : Nat) : Prop :=
  ∃ bytes, layOut offsetSize objects = .ok bytes ∧
    ∀ rest, ∃ index, parse (bytes ++ rest) = .ok index ∧ index.Holds objects bytes.length

variable {objects : List Bytes} {offsetSize : Nat}

theorem holds_empty : empty.Holds [] 2 where
  count := rfl
  get i h := absurd h (Nat.not_lt_zero i)
  beyond _ _ := rfl
  size := rfl

theorem suits_of_small (countable : objects.length ≤ 65535) (size_pos : 1 ≤ offsetSize)
    (size_le : offsetSize ≤ 4) (small : 1 + objects.flatten.length < 256 ^ offsetSize) :
    Suits objects offsetSize := by
  cases objects with
  | nil => exact ⟨[0, 0], layOut_nil offsetSize, fun rest =>
      ⟨empty, parse_empty rest, holds_empty⟩⟩
  | cons object objects =>
      have some := List.cons_ne_nil object objects
      have framed := framed_ofObjects some countable size_pos size_le small
      exact ⟨_, layOut_eq_bytes some size_pos size_le, fun rest => ⟨_, parse_bytes framed rest,
        holds_ofObjects some countable size_pos size_le small⟩⟩

/-- Offsets that are too small for the end of the data lose it. -/
theorem small_of_suits (size_pos : 1 ≤ offsetSize) (size_le : offsetSize ≤ 4)
    (suits : Suits objects offsetSize) : 1 + objects.flatten.length < 256 ^ offsetSize := by
  by_cases some : objects = []
  · rw [some]
    exact Nat.one_lt_pow (by omega) (by decide)
  obtain ⟨bytes, written, read⟩ := suits
  obtain rfl := Except.ok.inj ((layOut_eq_bytes some size_pos size_le).symm.trans written)
  obtain ⟨index, parsed, holds⟩ := read []
  obtain ⟨rest, ⟨rfl, _⟩ | ⟨framed, same⟩⟩ := eq_of_parse parsed
  · exact absurd (List.length_eq_zero_iff.1 holds.count.symm) some
  -- no byte is left over, so what was read is all that was written, with its last offset
  have length := congrArg List.length same
  rw [List.append_nil, List.length_append, length_bytes_of_framed framed, holds.size] at length
  obtain rfl : rest = [] := List.length_eq_zero_iff.1 (by omega)
  rw [List.append_nil, List.append_nil] at same
  obtain rfl := eq_of_bytes holds.count.symm size_le framed.size_le
    (length_offsets_ofObjects offsetSize objects) framed.offsets same
  have last : (ofObjects offsetSize objects).offset objects.length =
      objects.flatten.length + 1 := framed.data
  rw [offset_ofObjects (Nat.le_refl _), List.take_length] at last
  have wrapped : (1 + objects.flatten.length) % 256 ^ offsetSize < 256 ^ offsetSize :=
    Nat.mod_lt _ (Nat.pow_pos (by decide))
  omega

/-- The smallest size of offsets that reach the end of the data, if any do. -/
theorem smallestOffsetSize_spec {total : Nat} (reachable : total + 1 < 256 ^ 4) :
    1 ≤ smallestOffsetSize total ∧ smallestOffsetSize total ≤ 4 ∧
      1 + total < 256 ^ smallestOffsetSize total ∧
      ∀ size, 1 ≤ size → 1 + total < 256 ^ size → smallestOffsetSize total ≤ size := by
  unfold smallestOffsetSize
  split
  · exact ⟨by decide, by decide, by omega, fun size size_pos _ => size_pos⟩
  split
  · refine ⟨by decide, by decide, by omega, fun size size_pos small => ?_⟩
    by_contra less
    obtain rfl : size = 1 := by omega
    omega
  split
  · refine ⟨by decide, by decide, by omega, fun size size_pos small => ?_⟩
    by_contra less
    obtain rfl | rfl : size = 1 ∨ size = 2 := by omega
    all_goals omega
  · refine ⟨by decide, by decide, by omega, fun size size_pos small => ?_⟩
    by_contra less
    obtain rfl | rfl | rfl : size = 1 ∨ size = 2 ∨ size = 3 := by omega
    all_goals omega

/-! ## Writing what was read -/

section Reread

variable {index : Index} (first : index.offset 0 = 1)
  (get : ∀ (i : Nat) (h : i < objects.length), index.get i = .ok objects[i])

include first get

/-- Where the first object starts with the data, the objects stand one after the other. -/
theorem offset_of_get {i : Nat} (within : i ≤ objects.length) :
    index.offset i = 1 + (objects.take i).flatten.length ∧
      index.data.take (objects.take i).flatten.length = (objects.take i).flatten := by
  induction i with
  | zero => exact ⟨first, rfl⟩
  | succ i ih =>
      obtain ⟨before, front⟩ := ih (Nat.le_of_succ_le within)
      obtain ⟨-, start, stop, starting, stopping, ordered, inside, object⟩ :=
        get_eq_ok_iff.1 (get i within)
      have next := length_flatten_take_succ within
      have begun : start = (objects.take i).flatten.length := by omega
      have length := congrArg List.length object
      rw [List.length_take, List.length_drop] at length
      refine ⟨by omega, ?_⟩
      have split : stop = (objects.take i).flatten.length + (stop - start) := by omega
      have taken : (objects.take (i + 1)).flatten.length = stop := by omega
      rw [taken, split, List.take_add, front, List.take_succ_eq_append_getElem within,
        List.flatten_append, object, begun]
      simp

variable (count : objects.length = index.count)

include count

/-- The INDEX is the one of its objects. -/
theorem eq_ofObjects (framed : index.Framed) : index = ofObjects index.offsetSize objects := by
  have table : (offsetsOf objects).flatMap (Bytes.ofNat index.offsetSize) = index.offsets := by
    refine Bytes.flatMap_ofNat_eq ?_ ?_
    · rw [offsetsOf_eq, length_offsetsFrom, count, framed.offsets]
    · intro i number listed
      have within : i ≤ objects.length := by
        have bound := (List.getElem?_eq_some_iff.1 listed).1
        rw [offsetsOf_eq, length_offsetsFrom] at bound
        omega
      rw [offsetsOf_eq, getElem?_offsetsFrom 1 within] at listed
      exact (offset_of_get first get within).1.trans (Option.some.inj listed)
  obtain ⟨last, data⟩ := offset_of_get first get (Nat.le_refl objects.length)
  have data : index.data = objects.flatten := by
    have length := framed.data
    rw [← count, last, List.take_length] at length
    rw [List.take_length] at data
    rw [← data, List.take_of_length_le (by omega)]
  simp only [ofObjects, count, table, ← data]

theorem layOut_of_get {bytes : Bytes} (parsed : parse bytes = .ok index)
    (some : 0 < index.count) :
    layOut index.offsetSize objects = .ok (bytes.take index.size) := by
  obtain ⟨rest, ⟨rfl, _⟩ | ⟨framed, rfl⟩⟩ := eq_of_parse parsed
  · exact absurd some (Nat.lt_irrefl 0)
  have nonempty : objects ≠ [] := by
    rintro rfl
    exact absurd count (Nat.ne_of_lt some)
  have written := layOut_eq_bytes nonempty framed.size_pos framed.size_le
  rw [← eq_ofObjects first get count framed] at written
  rw [written, ← length_bytes_of_framed framed, List.take_left]

end Reread

/-! ## Both directions -/

/-- Objects that are written are read again, exactly with the sizes of offsets that reach the end of
the data, of which the smallest one is taken where none is given; and an INDEX that is read is
written again by the bytes that it was read from. -/
theorem layOut_parse :
    (∀ objects offsetSize, objects.length ≤ 65535 → 1 ≤ offsetSize → offsetSize ≤ 4 →
      (Suits objects offsetSize ↔ 1 + totalLength objects < 256 ^ offsetSize)) ∧
    (∀ objects, objects.length ≤ 65535 → totalLength objects + 1 < 256 ^ 4 →
      let smallest := smallestOffsetSize (totalLength objects)
      layOutSmallest objects = layOut smallest objects ∧ 1 ≤ smallest ∧ smallest ≤ 4 ∧
        Suits objects smallest ∧
        ∀ size, 1 ≤ size → size ≤ 4 → Suits objects size → smallest ≤ size) ∧
    (∀ offsetSize, layOut offsetSize [] = .ok [0, 0]) ∧
    ∀ bytes index objects, parse bytes = .ok index → 0 < index.count → index.offset 0 = 1 →
      objects.length = index.count →
      (∀ (i : Nat) (h : i < objects.length), index.get i = .ok objects[i]) →
      layOut index.offsetSize objects = .ok (bytes.take index.size) := by
  refine ⟨?_, ?_, layOut_nil, ?_⟩
  · intro objects offsetSize countable size_pos size_le
    rw [totalLength_eq]
    exact ⟨small_of_suits size_pos size_le, suits_of_small countable size_pos size_le⟩
  · intro objects countable reachable
    simp only [layOutSmallest, totalLength_eq] at reachable ⊢
    obtain ⟨size_pos, size_le, small, least⟩ := smallestOffsetSize_spec reachable
    refine ⟨trivial, size_pos, size_le, suits_of_small countable size_pos size_le small, ?_⟩
    intro size size_pos size_le suits
    exact least size size_pos (small_of_suits size_pos size_le suits)
  · intro bytes index objects parsed some first count get
    exact layOut_of_get first get count parsed some

theorem layOut_parse_pair :
    let objects : List Bytes := [[1, 2], [3]]
    let bytes : Bytes := [0, 2, 2, 0, 1, 0, 3, 0, 4, 1, 2, 3, 9]
    let index : Index := ⟨2, 2, [0, 1, 0, 3, 0, 4], [1, 2, 3]⟩
    1 + totalLength objects < 256 ^ 1 ∧ Suits objects 1 ∧
      layOutSmallest objects = .ok [0, 2, 1, 1, 3, 4, 1, 2, 3] ∧
      parse bytes = .ok index ∧ index.offset 0 = 1 ∧
      index.get 0 = .ok [1, 2] ∧ index.get 1 = .ok [3] ∧
      layOut 2 objects = .ok (bytes.take 12) := by
  intro objects bytes index
  obtain ⟨written, _, _, reread⟩ := layOut_parse
  have small : 1 + totalLength objects < 256 ^ 1 := by decide
  have get : ∀ (i : Nat) (h : i < objects.length), index.get i = .ok objects[i] := by
    intro i h
    match i, h with
    | 0, _ => cbv
    | 1, _ => cbv
  have parsed : parse bytes = .ok index := by cbv
  exact ⟨small, (written objects 1 (by decide) (by decide) (by decide)).2 small, by cbv,
    parsed, rfl, get 0 (by decide), get 1 (by decide),
    reread bytes index objects parsed (by decide) rfl rfl get⟩

end Index

end Type2Glyphs
