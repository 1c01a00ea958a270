import Type2Glyphs.Fault
import Type2Glyphs.Operand

/-!
# Token — the words of a glyph program

A glyph program is a row of tokens: operands, and operators with the bytes that belong to them.  The
first byte tells which of the two a token is, and how it goes on.

* `Token.read` reads a token and says how many bytes it takes beside the first one;
* `Token.next?` reads a token from the front of a byte string.
-/

namespace Type2Glyphs

/-- A token of a glyph program. -/
inductive Token
  | operand (value : Operand)
  | operator (op : Operator)
  deriving DecidableEq

namespace Token

/-- The first byte of a whole number in two bytes more. -/
def shortByte : UInt8 := 28

/-- The first byte of a 16.16 number in four bytes more. -/
def fixedByte : UInt8 := 255

/-- What a read gives that must succeed. -/
def demand {α : Type} : Option α → Except CharstringFault α
  | some value => .ok value
  | none => .error .unexpectedEnd

/-- A token that is a whole number. -/
def int (value : Int) : Token :=
  .operand (.int (.ofInt value))

/-- The token that starts with the byte `code`, and how many bytes of the rest belong to it. -/
def read (code : UInt8) (rest : Bytes) : Except CharstringFault (Token × Nat) :=
  if code = shortByte then do
    let (value, _) ← demand (rest.int? 2)
    return (int value, 2)
  else if code = fixedByte then do
    let (count, _) ← demand (rest.int? 4)
    return (.operand (.fixed (.ofRaw count)), 4)
  else if 251 ≤ code then do
    let (low, _) ← demand (rest.uint? 1)
    return (int (-(code.toNat - 251) * 256 - low - 108), 1)
  else if 247 ≤ code then do
    let (low, _) ← demand (rest.uint? 1)
    return (int ((code.toNat - 247) * 256 + low + 108), 1)
  else if 32 ≤ code then
    return (int (code.toNat - 139), 0)
  else if code = Operator.escapeByte then do
    let (second, _) ← demand (rest.uint? 1)
    match Operator.ofEscapeCode? (.ofNat second) with
    | some op => return (.operator op, 1)
    | none => throw (.invalidEscapeOperator (.ofNat second))
  else
    match Operator.ofCode? code with
    | some op => return (.operator op, 0)
    | none => throw (.invalidOperator code)

/-- The first token of a byte string and the bytes after it, if there is one. -/
def next? : Bytes → Option (Except CharstringFault (Token × Bytes))
  | [] => none
  | code :: rest => some ((read code rest).map fun (token, used) => (token, rest.drop used))

end Token

end Type2Glyphs
