import Type2Glyphs.Bytes

/-!
# Operator — the operators of a glyph program

The operators of Type 2 charstrings, grouped by what they act on: hint operators declare stems or
carry masks, moves start contours, path operators draw from the operands, and stack operators
rearrange or combine operands and touch nothing else.

Each operator has a name and an encoding of one byte, or of two bytes of which the first is the
escape byte.  `ofCode?` and `ofEscapeCode?` read the encodings; they are inverse to
`Operator.encoding` by `ofCode?_eq_some_iff` and `ofEscapeCode?_eq_some_iff`.
-/

namespace Type2Glyphs

/-! ## The operators -/

/-- Stem declarations.  The `hm` forms announce that masks follow. -/
inductive StemOp
  | hstem
  | vstem
  | hstemhm
  | vstemhm
  deriving DecidableEq

/-- Operators followed by a mask with one bit per declared stem. -/
inductive MaskOp
  | hintmask
  | cntrmask
  deriving DecidableEq

/-- Operators that start a contour at a displacement from the current point. -/
inductive MoveOp
  | rmoveto
  | hmoveto
  | vmoveto
  deriving DecidableEq

/-- Operators that append lines and curves to the open contour. -/
inductive PathOp
  | rlineto
  | hlineto
  | vlineto
  | rrcurveto
  | rcurveline
  | rlinecurve
  | vvcurveto
  | hhcurveto
  | vhcurveto
  | hvcurveto
  | hflex
  | flex
  | hflex1
  | flex1
  deriving DecidableEq

/-- Operators that replace operands by other operands. -/
inductive StackOp
  | and
  | or
  | not
  | abs
  | add
  | sub
  | div
  | neg
  | eq
  | drop
  | ifelse
  | mul
  | sqrt
  | dup
  | exch
  | index
  | roll
  deriving DecidableEq

/-- An operator of a glyph program. -/
inductive Operator
  | stem (op : StemOp)
  | mask (op : MaskOp)
  | move (op : MoveOp)
  | path (op : PathOp)
  | stack (op : StackOp)
  | callsubr
  | callgsubr
  | ret
  | endchar
  | seac
  | dotsection
  | put
  | get
  | random
  deriving DecidableEq

/-! ## Names -/

/-- The name of a stack operator. -/
def StackOp.name : StackOp → String
  | .and => "and"
  | .or => "or"
  | .not => "not"
  | .abs => "abs"
  | .add => "add"
  | .sub => "sub"
  | .div => "div"
  | .neg => "neg"
  | .eq => "eq"
  | .drop => "drop"
  | .ifelse => "ifelse"
  | .mul => "mul"
  | .sqrt => "sqrt"
  | .dup => "dup"
  | .exch => "exch"
  | .index => "index"
  | .roll => "roll"

namespace Operator

/-- The name of an operator in messages. -/
def name : Operator → String
  | .stem .hstem => "hstem"
  | .stem .vstem => "vstem"
  | .stem .hstemhm => "hstemhm"
  | .stem .vstemhm => "vstemhm"
  | .mask .hintmask => "hintmask"
  | .mask .cntrmask => "cntrmask"
  | .move .rmoveto => "rmoveto"
  | .move .hmoveto => "hmoveto"
  | .move .vmoveto => "vmoveto"
  | .path .rlineto => "rlineto"
  | .path .hlineto => "hlineto"
  | .path .vlineto => "vlineto"
  | .path .rrcurveto => "rrcurveto"
  | .path .rcurveline => "rcurveline"
  | .path .rlinecurve => "rlinecurve"
  | .path .vvcurveto => "vvcurveto"
  | .path .hhcurveto => "hhcurveto"
  | .path .vhcurveto => "vhcurveto"
  | .path .hvcurveto => "hvcurveto"
  | .path .hflex => "hflex"
  | .path .flex => "flex"
  | .path .hflex1 => "hflex1"
  | .path .flex1 => "flex1"
  | .stack op => op.name
  | .callsubr => "callsubr"
  | .callgsubr => "callgsubr"
  | .ret => "return"
  | .endchar => "endchar"
  | .seac => "seac"
  | .dotsection => "dotsection"
  | .put => "put"
  | .get => "get"
  | .random => "random"

/-! ## Encodings -/

/-- The first byte of every operator of two bytes. -/
def escapeByte : UInt8 := 12

/-- The operator of one byte. -/
def ofCode? : UInt8 → Option Operator
  | 1 => some (.stem .hstem)
  | 3 => some (.stem .vstem)
  | 4 => some (.move .vmoveto)
  | 5 => some (.path .rlineto)
  | 6 => some (.path .hlineto)
  | 7 => some (.path .vlineto)
  | 8 => some (.path .rrcurveto)
  | 10 => some .callsubr
  | 11 => some .ret
  | 14 => some .endchar
  | 18 => some (.stem .hstemhm)
  | 19 => some (.mask .hintmask)
  | 20 => some (.mask .cntrmask)
  | 21 => some (.move .rmoveto)
  | 22 => some (.move .hmoveto)
  | 23 => some (.stem .vstemhm)
  | 24 => some (.path .rcurveline)
  | 25 => some (.path .rlinecurve)
  | 26 => some (.path .vvcurveto)
  | 27 => some (.path .hhcurveto)
  | 29 => some .callgsubr
  | 30 => some (.path .vhcurveto)
  | 31 => some (.path .hvcurveto)
  | _ => none

/-- The operator of two bytes, by its second byte. -/
def ofEscapeCode? : UInt8 → Option Operator
  | 0 => some .dotsection
  | 3 => some (.stack .and)
  | 4 => some (.stack .or)
  | 5 => some (.stack .not)
  | 6 => some .seac
  | 9 => some (.stack .abs)
  | 10 => some (.stack .add)
  | 11 => some (.stack .sub)
  | 12 => some (.stack .div)
  | 14 => some (.stack .neg)
  | 15 => some (.stack .eq)
  | 18 => some (.stack .drop)
  | 20 => some .put
  | 21 => some .get
  | 22 => some (.stack .ifelse)
  | 23 => some .random
  | 24 => some (.stack .mul)
  | 26 => some (.stack .sqrt)
  | 27 => some (.stack .dup)
  | 28 => some (.stack .exch)
  | 29 => some (.stack .index)
  | 30 => some (.stack .roll)
  | 34 => some (.path .hflex)
  | 35 => some (.path .flex)
  | 36 => some (.path .hflex1)
  | 37 => some (.path .flex1)
  | _ => none

/-- The bytes of an operator. -/
def encoding : Operator → Bytes
  | .stem .hstem => [1]
  | .stem .vstem => [3]
  | .move .vmoveto => [4]
  | .path .rlineto => [5]
  | .path .hlineto => [6]
  | .path .vlineto => [7]
  | .path .rrcurveto => [8]
  | .callsubr => [10]
  | .ret => [11]
  | .endchar => [14]
  | .stem .hstemhm => [18]
  | .mask .hintmask => [19]
  | .mask .cntrmask => [20]
  | .move .rmoveto => [21]
  | .move .hmoveto => [22]
  | .stem .vstemhm => [23]
  | .path .rcurveline => [24]
  | .path .rlinecurve => [25]
  | .path .vvcurveto => [26]
  | .path .hhcurveto => [27]
  | .callgsubr => [29]
  | .path .vhcurveto => [30]
  | .path .hvcurveto => [31]
  | .dotsection => [escapeByte, 0]
  | .stack .and => [escapeByte, 3]
  | .stack .or => [escapeByte, 4]
  | .stack .not => [escapeByte, 5]
  | .seac => [escapeByte, 6]
  | .stack .abs => [escapeByte, 9]
  | .stack .add => [escapeByte, 10]
  | .stack .sub => [escapeByte, 11]
  | .stack .div => [escapeByte, 12]
  | .stack .neg => [escapeByte, 14]
  | .stack .eq => [escapeByte, 15]
  | .stack .drop => [escapeByte, 18]
  | .put => [escapeByte, 20]
  | .get => [escapeByte, 21]
  | .stack .ifelse => [escapeByte, 22]
  | .random => [escapeByte, 23]
  | .stack .mul => [escapeByte, 24]
  | .stack .sqrt => [escapeByte, 26]
  | .stack .dup => [escapeByte, 27]
  | .stack .exch => [escapeByte, 28]
  | .stack .index => [escapeByte, 29]
  | .stack .roll => [escapeByte, 30]
  | .path .hflex => [escapeByte, 34]
  | .path .flex => [escapeByte, 35]
  | .path .hflex1 => [escapeByte, 36]
  | .path .flex1 => [escapeByte, 37]

/-- All operators, in the order of their encodings. -/
def all : List Operator :=
  [.stem .hstem, .stem .vstem, .move .vmoveto, .path .rlineto, .path .hlineto, .path .vlineto,
   .path .rrcurveto, .callsubr, .ret, .endchar, .stem .hstemhm, .mask .hintmask, .mask .cntrmask,
   .move .rmoveto, .move .hmoveto, .stem .vstemhm, .path .rcurveline, .path .rlinecurve,
   .path .vvcurveto, .path .hhcurveto, .callgsubr, .path .vhcurveto, .path .hvcurveto,
   .dotsection, .stack .and, .stack .or, .stack .not, .seac, .stack .abs, .stack .add,
   .stack .sub, .stack .div, .stack .neg, .stack .eq, .stack .drop, .put, .get, .stack .ifelse,
   .random, .stack .mul, .stack .sqrt, .stack .dup, .stack .exch, .stack .index, .stack .roll,
   .path .hflex, .path .flex, .path .hflex1, .path .flex1]

/-- The operator of a given name, if there is one. -/
def ofName? (text : String) : Option Operator :=
  all.find? fun op => op.name = text

/-- An operator of one byte is read back from its encoding, and from no other byte. -/
theorem ofCode?_eq_some_iff {code : UInt8} {op : Operator} :
    ofCode? code = some op ↔ op.encoding = [code] := by
  constructor
  · intro h
    unfold ofCode? at h
    split at h <;> simp_all <;> subst h <;> rfl
  · intro h
    cases op <;> (try rename_i op; cases op) <;> simp_all [encoding] <;> subst h <;> rfl

/-- An operator of two bytes is read back from its second byte, and from no other. -/
theorem ofEscapeCode?_eq_some_iff {code : UInt8} {op : Operator} :
    ofEscapeCode? code = some op ↔ op.encoding = [escapeByte, code] := by
  constructor
  · intro h
    unfold ofEscapeCode? at h
    split at h <;> simp_all <;> subst h <;> rfl
  · intro h
    cases op <;> (try rename_i op; cases op) <;> simp_all [encoding] <;> subst h <;> rfl

end Operator

end Type2Glyphs
