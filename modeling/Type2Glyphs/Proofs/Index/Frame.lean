import Mathlib.Data.List.Basic
import Type2Glyphs.Bytes.Numerals
import Type2Glyphs.Index.Layout
import Type2Glyphs.Proofs.Faults

/-!
# Frame — which bytes are those of an INDEX

Reading an INDEX checks its frame: the count, the size of an offset, as many offsets as there have
to be, and as many bytes of data as the last offset says.  `Index.Framed` gathers these checks, and
`Index.bytes` puts the parts of an INDEX one after the other again.

* `Index.parse_bytes`: an INDEX is read off its own bytes, whatever follows them;
* `Index.eq_of_parse`: there are no other bytes off which it could be read.
-/

namespace Type2Glyphs

/-! ## Numbers in front of other bytes -/

namespace Bytes

theorem uint?_ofNat_append (size number : Nat) (rest : Bytes) :
    (ofNat size number ++ rest).uint? size = some (number % 256 ^ size, rest) := by
  have split : (ofNat size number ++ rest).split? size = some (ofNat size number, rest) :=
    split?_eq_some_iff.2 ⟨length_ofNat size number, rfl⟩
  simp only [uint?, split, Option.map_some, bigEndian_ofNat]

theorem uint?_eq_some_iff {size number : Nat} {bytes rest : Bytes} :
    bytes.uint? size = some (number, rest) ↔
      number < 256 ^ size ∧ bytes = ofNat size number ++ rest := by
  constructor
  · intro h
    obtain ⟨⟨front, later⟩, split, same⟩ := Option.map_eq_some_iff.1 h
    obtain ⟨rfl, rfl⟩ := Prod.mk.inj same
    obtain ⟨rfl, rfl⟩ := split?_eq_some_iff.1 split
    -- the bytes that were read are those that the number is written in
    have written := ofNat_bigEndian front
    have reread := bigEndian_ofNat front.length (bigEndian front)
    rw [written] at reread
    refine ⟨?_, by rw [written]⟩
    rw [reread]
    exact Nat.mod_lt _ (Nat.pow_pos (by decide))
  · rintro ⟨small, rfl⟩
    rw [uint?_ofNat_append, Nat.mod_eq_of_lt small]

end Bytes

namespace Index

/-! ## Frames -/

/-- An INDEX with objects and a frame that fits them. -/
structure Framed (index : Index) : Prop where
  some : 0 < index.count
  countable : index.count < 65536
  size_pos : 1 ≤ index.offsetSize
  size_le : index.offsetSize ≤ 4
  offsets : index.offsets.length = (index.count + 1) * index.offsetSize
  data : index.offset index.count = index.data.length + 1

/-- The bytes of an INDEX with objects. -/
def bytes (index : Index) : Bytes :=
  Bytes.ofNat 2 index.count ++
    UInt8.ofNat index.offsetSize :: (index.offsets ++ index.data)

theorem length_bytes (index : Index) :
    index.bytes.length = 3 + index.offsets.length + index.data.length := by
  simp only [bytes, List.length_append, List.length_cons, Bytes.length_ofNat]
  omega

theorem length_bytes_of_framed {index : Index} (framed : index.Framed) :
    index.bytes.length = index.size := by
  have some := framed.some
  rw [length_bytes, size, if_neg (by omega)]

/-- With as many objects, and as many offsets as there have to be, the bytes make the INDEX. -/
theorem eq_of_bytes {index index' : Index} (count : index.count = index'.count)
    (small : index.offsetSize ≤ 4) (small' : index'.offsetSize ≤ 4)
    (offsets : index.offsets.length = (index.count + 1) * index.offsetSize)
    (offsets' : index'.offsets.length = (index'.count + 1) * index'.offsetSize)
    (same : index.bytes = index'.bytes) : index = index' := by
  simp only [bytes] at same
  rw [count] at same offsets
  obtain ⟨size, tail⟩ := List.cons.inj (List.append_cancel_left same)
  have size : index.offsetSize = index'.offsetSize := by
    have wrapped := congrArg UInt8.toNat size
    simp only [UInt8.toNat_ofNat'] at wrapped
    omega
  rw [size, ← offsets'] at offsets
  obtain ⟨table, data⟩ := List.append_inj tail offsets
  cases index
  cases index'
  cases count
  cases size
  cases table
  cases data
  rfl

theorem place_eq_ok_iff {offset start : Nat} : place offset = .ok start ↔ offset = start + 1 := by
  simp only [place]
  split
  · next zero => simp [zero]
  · next positive =>
      simp only [Except.ok.injEq]
      omega

theorem parse_empty (rest : Bytes) : parse (0 :: 0 :: rest) = .ok empty := by
  have count : Bytes.uint? 2 (0 :: 0 :: rest) = some (0, rest) := Bytes.uint?_ofNat_append 2 0 rest
  simp only [parse, bind, Except.bind, count, FontDataFault.demand]
  rfl

/-- An INDEX with objects is read off its own bytes. -/
theorem parse_bytes {index : Index} (framed : index.Framed) (rest : Bytes) :
    parse (index.bytes ++ rest) = .ok index := by
  obtain ⟨some, countable, size_pos, size_le, offsets, data⟩ := framed
  have count : (index.bytes ++ rest).uint? 2 = .some (index.count,
      UInt8.ofNat index.offsetSize :: (index.offsets ++ (index.data ++ rest))) := by
    rw [bytes, List.append_assoc, Bytes.uint?_ofNat_append,
      Nat.mod_eq_of_lt (show index.count < 256 ^ 2 from countable)]
    simp only [List.cons_append, List.append_assoc]
  have size : Bytes.uint? 1
      (UInt8.ofNat index.offsetSize :: (index.offsets ++ (index.data ++ rest))) =
        .some (index.offsetSize, index.offsets ++ (index.data ++ rest)) := by
    have one := Bytes.uint?_ofNat_append 1 index.offsetSize
      (index.offsets ++ (index.data ++ rest))
    rw [Nat.mod_eq_of_lt (by omega)] at one
    exact one
  have table : (index.offsets ++ (index.data ++ rest)).split?
      ((index.count + 1) * index.offsetSize) = .some (index.offsets, index.data ++ rest) :=
    Bytes.split?_eq_some_iff.2 ⟨offsets, rfl⟩
  have objects : (index.data ++ rest).split? index.data.length = .some (index.data, rest) :=
    Bytes.split?_append rest
  -- the last offset is read before the data, and says how much of it there is
  have last : (Index.mk index.count index.offsetSize index.offsets []).offset index.count =
      index.data.length + 1 := data
  simp only [parse, bind, Except.bind, count, size, table, objects, last, FontDataFault.demand,
    place, if_neg (Nat.succ_ne_zero _), Nat.add_sub_cancel]
  rw [if_neg (by omega), if_neg (by omega)]
  rfl

/-- What is read as an INDEX is one without objects, or one with a frame that fits. -/
theorem eq_of_parse {bytes : Bytes} {index : Index} (parsed : parse bytes = .ok index) :
    ∃ rest, index = empty ∧ bytes = 0 :: 0 :: rest ∨
      index.Framed ∧ bytes = index.bytes ++ rest := by
  obtain ⟨⟨count, rest⟩, counting, counted⟩ := Except.bind_eq_ok.1 parsed
  obtain ⟨countable, rfl⟩ := Bytes.uint?_eq_some_iff.1 (FontDataFault.demand_eq_ok.1 counting)
  dsimp only at counted
  split at counted
  · next none =>
      cases counted
      rw [none]
      exact ⟨rest, .inl ⟨rfl, rfl⟩⟩
  obtain ⟨⟨size, rest⟩, sizing, sized⟩ := Except.bind_eq_ok.1 counted
  obtain ⟨_, rfl⟩ := Bytes.uint?_eq_some_iff.1 (FontDataFault.demand_eq_ok.1 sizing)
  dsimp only at sized
  split at sized
  · cases sized
  obtain ⟨⟨offsets, rest⟩, tabling, tabled⟩ := Except.bind_eq_ok.1 sized
  obtain ⟨table, rfl⟩ := Bytes.split?_eq_some_iff.1 (FontDataFault.demand_eq_ok.1 tabling)
  obtain ⟨length, placing, placed⟩ := Except.bind_eq_ok.1 tabled
  obtain ⟨⟨data, rest⟩, ending, ended⟩ := Except.bind_eq_ok.1 placed
  obtain ⟨rfl, rfl⟩ := Bytes.split?_eq_some_iff.1 (FontDataFault.demand_eq_ok.1 ending)
  cases ended
  have last := place_eq_ok_iff.1 placing
  have some : 0 < count := by omega
  have fits : 1 ≤ size ∧ size ≤ 4 := by omega
  refine ⟨rest, .inr ⟨⟨some, countable, fits.1, fits.2, table, last⟩, ?_⟩⟩
  simp [Index.bytes, Bytes.ofNat]

end Index

end Type2Glyphs
