import Type2Glyphs.Index

/-!
# Layout — writing an INDEX

`Index.layOut` writes a list of objects as an INDEX with offsets of a given size, and
`Index.layOutSmallest` with the smallest offsets that reach the end of the data.
-/

namespace Type2Glyphs

namespace Index

/-- The offsets of the objects: where each one starts, and where the last one ends. -/
def offsetsOf (objects : List Bytes) : List Nat :=
  (objects.foldl (fun offsets object => (offsets.headD 1 + object.length) :: offsets) [1]).reverse

/-- What keeps objects from being written as an INDEX. -/
inductive LayoutFault
  | offsetSize
  deriving DecidableEq

/-- The wording of a fault. -/
def LayoutFault.message : LayoutFault → String
  | .offsetSize => "off_size should be 1-4"

/-- Writes an INDEX.  Only the count is written when there are no objects, whatever the size of an
offset; the count and the offsets keep the bytes that fit. -/
def layOut (offsetSize : Nat) (objects : List Bytes) : Except LayoutFault Bytes :=
  let count := Bytes.ofNat 2 objects.length
  if objects.isEmpty then
    .ok count
  else if offsetSize < 1 ∨ 4 < offsetSize then
    .error .offsetSize
  else
    let offsets := (offsetsOf objects).flatMap (Bytes.ofNat offsetSize)
    .ok (count ++ UInt8.ofNat offsetSize :: (offsets ++ objects.flatten))

/-- The smallest size of offsets for objects of the given total length. -/
def smallestOffsetSize (total : Nat) : Nat :=
  if total + 1 < 256 then
    1
  else if total + 1 < 65536 then
    2
  else if total + 1 < 16777216 then
    3
  else
    4

/-- The number of bytes in all objects. -/
def totalLength (objects : List Bytes) : Nat :=
  objects.foldl (fun total object => total + object.length) 0

/-- Writes an INDEX with the smallest offsets. -/
def layOutSmallest (objects : List Bytes) : Except LayoutFault Bytes :=
  layOut (smallestOffsetSize (totalLength objects)) objects

end Index

end Type2Glyphs
