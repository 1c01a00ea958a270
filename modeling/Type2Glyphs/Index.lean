import Type2Glyphs.Fault

/-!
# Index — numbered objects of variable size

An INDEX stores glyph programs and subroutines: a count of two bytes, the size of an offset, one
offset more than there are objects, and the objects one after the other.  Offsets count from the
byte before the objects, so the first one is 1.  An INDEX without objects is its count alone.

* `Index.parse` reads the frame of an INDEX and leaves the single objects unread;
* `Index.get` reads one object, and finds what is wrong with its offsets only then.
-/

namespace Type2Glyphs

/-- An INDEX: its offsets as bytes, `offsetSize` for each, and the bytes of all objects. -/
structure Index where
  count : Nat
  offsetSize : Nat
  offsets : Bytes
  data : Bytes
  deriving DecidableEq, Inhabited

namespace Index

/-- The INDEX without objects. -/
def empty : Index :=
  ⟨0, 0, [], []⟩

/-- The place in the data that an offset refers to. -/
def place (offset : Nat) : Except FontDataFault Nat :=
  if offset = 0 then .error .zeroOffset else .ok (offset - 1)

/-- The offset with the given number. -/
def offset (index : Index) (i : Nat) : Nat :=
  Bytes.bigEndian ((index.offsets.drop (i * index.offsetSize)).take index.offsetSize)

/-- Reads an INDEX from the front of the bytes.  What follows it is ignored. -/
def parse (bytes : Bytes) : Except FontDataFault Index := do
  let (count, bytes) ← FontDataFault.demand (bytes.uint? 2)
  if count = 0 then
    return empty
  let (offsetSize, bytes) ← FontDataFault.demand (bytes.uint? 1)
  if offsetSize < 1 ∨ 4 < offsetSize then
    throw (.invalidOffsetSize offsetSize)
  let (offsets, bytes) ← FontDataFault.demand (bytes.split? ((count + 1) * offsetSize))
  let frame : Index := ⟨count, offsetSize, offsets, []⟩
  let size ← place (frame.offset count)
  let (data, _) ← FontDataFault.demand (bytes.split? size)
  return { frame with data }

/-- The object with the given number. -/
def get (index : Index) (i : Nat) : Except FontDataFault Bytes := do
  if index.count ≤ i then
    throw .outOfBounds
  let start ← place (index.offset i)
  let stop ← place (index.offset (i + 1))
  if stop < start then
    throw (.unorderedOffsets i)
  if index.data.length < stop then
    throw .outOfBounds
  return (index.data.drop start).take (stop - start)

/-- What a subroutine call adds to its operand to get the number of the subroutine. -/
def bias (index : Index) : Nat :=
  if index.count < 1240 then
    107
  else if index.count < 33900 then
    1131
  else
    32768

/-- The number of bytes that the INDEX takes. -/
def size (index : Index) : Nat :=
  if index.count = 0 then 2 else 3 + index.offsets.length + index.data.length

end Index

end Type2Glyphs
