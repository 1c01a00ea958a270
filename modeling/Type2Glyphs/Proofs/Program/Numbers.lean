import Mathlib.Tactic.Ring
import Type2Glyphs.Bytes.Numerals
import Type2Glyphs.Charstring.Encoding
import Type2Glyphs.Proofs.Kinds.Operands
import Type2Glyphs.Proofs.Program.Run

/-!
# Numbers — operands that are written and read again

The first byte of a token says how the token goes on, so operands can be written one after the other
with nothing between them.

* `Token.encodeAll` writes a row of operands and `Token.row?` reads a row of tokens; the second
  undoes the first, whatever bytes follow (`Token.exists_row?_encodeAll`);
* `Eval.evaluateAfter_row` says that evaluating such a row puts the operands on the stack;
* `Token.encodeInt_of_next?` says that a whole number, in whichever form it is read, can be written
  in no more bytes than that form has;
* `Token.encodeInt_of_pair` says that the forms of two bytes are the ones that are written.
-/

namespace Type2Glyphs

open Outcome

/-! ## Integers in two's complement -/

namespace Bytes

/-- The bytes of an integer spell it, up to a multiple of what they can hold. -/
theorem exists_eq_bigEndian_ofInt (size : Nat) (number : Int) :
    ∃ k : Int, number = bigEndian (ofInt size number) + (256 ^ size : Nat) * k := by
  induction size generalizing number with
  | zero => exact ⟨number, by simp [ofInt, bigEndian]⟩
  | succ size ih =>
      obtain ⟨k, quotient⟩ := ih (number / 256)
      have digit : ((UInt8.ofInt number).toNat : Int) = number % 256 := by
        simp only [UInt8.ofInt, UInt8.toNat_ofNat']
        omega
      refine ⟨k, ?_⟩
      -- the last byte is the lowest digit, and the bytes before it are those of the quotient
      calc number = number / 256 * 256 + number % 256 := (Int.ediv_mul_add_emod number 256).symm
        _ = (bigEndian (ofInt size (number / 256)) + (256 ^ size : Nat) * k) * 256 +
              (UInt8.ofInt number).toNat := by rw [← quotient, digit]
        _ = bigEndian (ofInt (size + 1) number) + (256 ^ (size + 1) : Nat) * k := by
            rw [ofInt, bigEndian_append_byte, Nat.pow_succ]
            push_cast
            ring

theorem signed_bigEndian_ofInt (size : Nat) (number : Int) :
    signed (8 * size) (bigEndian (ofInt size number)) = number.bmod (256 ^ size) := by
  obtain ⟨k, spelled⟩ := exists_eq_bigEndian_ofInt size number
  have modulus : 1 <<< (8 * size) = 256 ^ size := by
    rw [Nat.shiftLeft_eq, Nat.one_mul, Nat.pow_mul]
  calc signed (8 * size) (bigEndian (ofInt size number))
      = (bigEndian (ofInt size number) : Int).bmod (256 ^ size) := by rw [signed, modulus]
    _ = (bigEndian (ofInt size number) + (256 ^ size : Nat) * k : Int).bmod (256 ^ size) :=
        (Int.add_mul_bmod_self_left _ _ _).symm
    _ = number.bmod (256 ^ size) := by rw [← spelled]

/-- An integer that was written is read again, less what its bytes cannot hold. -/
theorem int?_ofInt_append (size : Nat) (number : Int) (rest : Bytes) :
    (ofInt size number ++ rest).int? size = some (number.bmod (256 ^ size), rest) := by
  have split : (ofInt size number ++ rest).split? size = some (ofInt size number, rest) :=
    split?_eq_some_iff.2 ⟨length_ofInt size number, rfl⟩
  simp only [int?, uint?, split, Option.map_some, signed_bigEndian_ofInt]

end Bytes

namespace Token

variable {code low : UInt8} {rest later program bytes : Bytes} {value : Int} {v : Int32}
  {used : Nat}

/-! ## The forms of a number -/

/-- A whole number of one byte. -/
theorem read_of_single (least : 32 ≤ code) (most : code ≤ 246) (rest : Bytes) :
    read code rest = .ok (int (code.toNat - 139), 0) := by
  have short : code ≠ shortByte := by grind [shortByte]
  have fixed : code ≠ fixedByte := by grind [fixedByte]
  have negative : ¬ 251 ≤ code := by grind
  have positive : ¬ 247 ≤ code := by grind
  simp only [read, if_neg short, if_neg fixed, if_neg negative, if_neg positive, if_pos least]
  rfl

/-- A whole number above those of one byte. -/
theorem read_of_positive (least : 247 ≤ code) (most : code ≤ 250) (low : UInt8) (rest : Bytes) :
    read code (low :: rest) = .ok (int ((code.toNat - 247) * 256 + low.toNat + 108), 1) := by
  have short : code ≠ shortByte := by grind [shortByte]
  have fixed : code ≠ fixedByte := by grind [fixedByte]
  have negative : ¬ 251 ≤ code := by grind
  have next : Bytes.uint? 1 (low :: rest) = some (low.toNat, rest) := by
    simp [Bytes.uint?, Bytes.split?, Bytes.bigEndian]
  simp only [read, if_neg short, if_neg fixed, if_neg negative, if_pos least, next]
  rfl

/-- A whole number below those of one byte. -/
theorem read_of_negative (least : 251 ≤ code) (most : code ≤ 254) (low : UInt8) (rest : Bytes) :
    read code (low :: rest) = .ok (int (-(code.toNat - 251) * 256 - low.toNat - 108), 1) := by
  have short : code ≠ shortByte := by grind [shortByte]
  have fixed : code ≠ fixedByte := by grind [fixedByte]
  have next : Bytes.uint? 1 (low :: rest) = some (low.toNat, rest) := by
    simp [Bytes.uint?, Bytes.split?, Bytes.bigEndian]
  simp only [read, if_neg short, if_neg fixed, if_pos least, next]
  rfl

/-- A whole number that was written in two bytes behind the first one. -/
theorem read_of_short (value : Int) (rest : Bytes) :
    read shortByte (Bytes.ofInt 2 value ++ rest) = .ok (int (value.bmod 65536), 2) := by
  simp only [read, if_true, Bytes.int?_ofInt_append]
  rfl

/-- A 16.16 number is written in four bytes behind the first one. -/
theorem read_of_fixed (value : Fixed) (rest : Bytes) :
    read fixedByte (Bytes.ofInt 4 value.raw ++ rest) = .ok (.operand (.fixed value), 4) := by
  have distinct : fixedByte ≠ shortByte := by decide
  have fits : value.raw.bmod (256 ^ 4) = value.raw := by
    have most := value.raw_lt
    have least := value.le_raw
    exact Int.bmod_eq_of_le (by omega) (by omega)
  simp only [read, if_neg distinct, if_true, Bytes.int?_ofInt_append, fits]
  exact congrArg (fun number => Except.ok (operand (.fixed number), 4)) value.ofRaw_raw

/-! ## Whole numbers -/

/-- The number of bytes in which a whole number is written. -/
def intSize (value : Int) : Nat :=
  if value.natAbs ≤ 107 then 1 else if value.natAbs ≤ 1131 then 2 else 3

theorem toNat_ofInt {number : Int} (least : 0 ≤ number) (most : number ≤ 255) :
    ((UInt8.ofInt number).toNat : Int) = number := by
  simp only [UInt8.ofInt, UInt8.toNat_ofNat']
  omega

theorem next?_of_read (front : Bytes) {token : Token}
    (read : Token.read code (front ++ rest) = .ok (token, front.length)) :
    next? (code :: front ++ rest) = some (.ok (token, rest)) :=
  next?_eq_ok.2 ⟨code, front ++ rest, front.length, rfl, read, List.drop_left⟩

/-- A short whole number is written in one of three forms, and is read again from it. -/
theorem exists_encodeInt (least : -32768 ≤ value) (most : value ≤ 32767) :
    ∃ bytes, encodeInt value = .ok bytes ∧ bytes.length = intSize value ∧
      ∀ rest, next? (bytes ++ rest) = some (.ok (int value, rest)) := by
  by_cases single : -107 ≤ value ∧ value ≤ 107
  · have spelled : ((UInt8.ofInt (value + 139)).toNat : Int) = value + 139 :=
      toNat_ofInt (by omega) (by omega)
    have written : encodeInt value = .ok [UInt8.ofInt (value + 139)] := if_pos single
    generalize UInt8.ofInt (value + 139) = code at spelled written
    have first : 32 ≤ code := UInt8.le_iff_toNat_le.2 (by simp; omega)
    have last : code ≤ 246 := UInt8.le_iff_toNat_le.2 (by simp; omega)
    refine ⟨[code], written, (if_pos (by omega)).symm, fun rest => ?_⟩
    have read := read_of_single first last rest
    rw [show (code.toNat : Int) - 139 = value by omega] at read
    exact next?_of_read [] read
  by_cases positive : 108 ≤ value ∧ value ≤ 1131
  · have page : ((UInt8.ofInt ((value - 108) / 256 + 247)).toNat : Int) =
        (value - 108) / 256 + 247 := toNat_ofInt (by omega) (by omega)
    have place : ((UInt8.ofInt ((value - 108) % 256)).toNat : Int) = (value - 108) % 256 :=
      toNat_ofInt (by omega) (by omega)
    have written : encodeInt value =
        .ok [UInt8.ofInt ((value - 108) / 256 + 247), UInt8.ofInt ((value - 108) % 256)] :=
      (if_neg single).trans (if_pos positive)
    generalize UInt8.ofInt ((value - 108) / 256 + 247) = code at page written
    generalize UInt8.ofInt ((value - 108) % 256) = low at place written
    have first : 247 ≤ code := UInt8.le_iff_toNat_le.2 (by simp; omega)
    have last : code ≤ 250 := UInt8.le_iff_toNat_le.2 (by simp; omega)
    refine ⟨[code, low], written, ?_, fun rest => ?_⟩
    · exact ((if_neg (by omega)).trans (if_pos (by omega))).symm
    have read := read_of_positive first last low rest
    rw [show ((code.toNat : Int) - 247) * 256 + low.toNat + 108 = value by omega] at read
    exact next?_of_read [low] read
  by_cases negative : -1131 ≤ value ∧ value ≤ -108
  · have page : ((UInt8.ofInt ((-value - 108) / 256 + 251)).toNat : Int) =
        (-value - 108) / 256 + 251 := toNat_ofInt (by omega) (by omega)
    have place : ((UInt8.ofInt ((-value - 108) % 256)).toNat : Int) = (-value - 108) % 256 :=
      toNat_ofInt (by omega) (by omega)
    have written : encodeInt value =
        .ok [UInt8.ofInt ((-value - 108) / 256 + 251), UInt8.ofInt ((-value - 108) % 256)] :=
      (if_neg single).trans ((if_neg positive).trans (if_pos negative))
    generalize UInt8.ofInt ((-value - 108) / 256 + 251) = code at page written
    generalize UInt8.ofInt ((-value - 108) % 256) = low at place written
    have first : 251 ≤ code := UInt8.le_iff_toNat_le.2 (by simp; omega)
    have last : code ≤ 254 := UInt8.le_iff_toNat_le.2 (by simp; omega)
    refine ⟨[code, low], written, ?_, fun rest => ?_⟩
    · exact ((if_neg (by omega)).trans (if_pos (by omega))).symm
    have read := read_of_negative first last low rest
    rw [show -((code.toNat : Int) - 251) * 256 - low.toNat - 108 = value by omega] at read
    exact next?_of_read [low] read
  · have written : encodeInt value = .ok (shortByte :: Bytes.ofInt 2 value) :=
      (if_neg single).trans ((if_neg positive).trans ((if_neg negative).trans
        (if_pos ⟨least, most⟩)))
    refine ⟨shortByte :: Bytes.ofInt 2 value, written, ?_, fun rest => ?_⟩
    · exact ((if_neg (by omega)).trans (if_neg (by omega))).symm
    have read := read_of_short value rest
    rw [Int.bmod_eq_of_le (by omega) (by omega)] at read
    exact next?_of_read (Bytes.ofInt 2 value) read

/-! ## Operands in a row -/

/-- A short operand is read again from the bytes in which it is written. -/
theorem exists_encodeOperand {operand : Operand} (short : operand.Short) :
    ∃ bytes, encodeOperand operand = .ok bytes ∧
      ∀ rest, next? (bytes ++ rest) = some (.ok (.operand operand, rest)) := by
  cases operand with
  | int value =>
      rcases exists_encodeInt short.1 short.2 with ⟨bytes, written, _, reread⟩
      rw [int, Int32.ofInt_toInt] at reread
      exact ⟨bytes, written, reread⟩
  | fixed value =>
      exact ⟨encodeFixed value, rfl, fun rest =>
        next?_of_read (Bytes.ofInt 4 value.raw) (read_of_fixed value rest)⟩

/-- The bytes of operands that stand one after the other. -/
def encodeAll : List Operand → Except EncodingFault Bytes
  | [] => .ok []
  | first :: others => do
      let front ← encodeOperand first
      let later ← encodeAll others
      return front ++ later

/-- The first tokens of a byte string, so many of them, and the bytes after them. -/
def row? : Nat → Bytes → Option (List Token × Bytes)
  | 0, program => some ([], program)
  | count + 1, program =>
      match next? program with
      | some (.ok (token, rest)) => (row? count rest).map fun (row, later) => (token :: row, later)
      | _ => none

/-- Short operands can be written in a row, and are read again whatever bytes follow. -/
theorem exists_row?_encodeAll {operands : List Operand} (short : ∀ a ∈ operands, a.Short) :
    ∃ bytes, encodeAll operands = .ok bytes ∧ ∀ rest,
      row? operands.length (bytes ++ rest) = some (operands.map .operand, rest) := by
  induction operands with
  | nil => exact ⟨[], rfl, fun rest => rfl⟩
  | cons first others ih =>
      rcases exists_encodeOperand (short first List.mem_cons_self) with ⟨front, written, reread⟩
      rcases ih fun a mem => short a (List.mem_cons_of_mem _ mem) with ⟨later, written', row⟩
      refine ⟨front ++ later, ?_, fun rest => ?_⟩
      · simp only [encodeAll, written, written']
        rfl
      · simp only [List.length_cons, row?, List.append_assoc, reread, row, Option.map_some,
          List.map_cons]

end Token

namespace Eval

variable {execute : Operator → Bytes → Eval Flow} {depth : Nat}

/-- The session with operands pushed one after the other. -/
def pushAll (operands : List Operand) (s : Session) : Session :=
  s.mapMachine fun machine =>
    { machine with stack := ⟨operands.reverse ++ machine.stack.entries⟩ }

theorem pushAll_pushAll (first : Operand) (others : List Operand) (s : Session) :
    pushAll others (pushAll [first] s) = pushAll (first :: others) s := by
  simp [pushAll, Session.mapMachine]

theorem size_pushAll (operands : List Operand) (s : Session) :
    (pushAll operands s).machine.stack.size = operands.length + s.machine.stack.size := by
  simp [pushAll, Session.mapMachine, OperandStack.size]

theorem evaluateAfter_next? {value : Operand} {program rest : Bytes} {s : Session}
    (next : Token.next? program = some (.ok (.operand value, rest)))
    (room : s.machine.stack.size < maxOperands) :
    evaluateAfter execute depth 0 program s =
      evaluateAfter execute depth 0 rest (pushAll [value] s) := by
  rcases Token.next?_eq_ok.1 next with ⟨code, bytes, used, rfl, read, rfl⟩
  have pushed : changeStack (OperandStack.push value) s = .ok () (pushAll [value] s) :=
    changeStack_eq_ok.2 ⟨_, OperandStack.push_eq_ok_iff.2 ⟨room, rfl⟩, rfl⟩
  exact (evaluateAfter_operand read s).trans (bind_ok pushed _)

/-- Operands that stand in a row are pushed one after the other, if there is room for all. -/
theorem evaluateAfter_row {operands : List Operand} {program later : Bytes} {s : Session}
    (row : Token.row? operands.length program = some (operands.map .operand, later))
    (room : s.machine.stack.size + operands.length ≤ maxOperands) :
    evaluateAfter execute depth 0 program s =
      evaluateAfter execute depth 0 later (pushAll operands s) := by
  induction operands generalizing program s with
  | nil =>
      cases row
      rfl
  | cons first others ih =>
      rw [List.length_cons] at room
      simp only [List.length_cons, Token.row?] at row
      split at row
      · next token rest next =>
          rcases Option.map_eq_some_iff.1 row with ⟨⟨tokens, unread⟩, behind, same⟩
          cases same
          have more : (pushAll [first] s).machine.stack.size + others.length ≤ maxOperands := by
            rw [size_pushAll, List.length_singleton]
            omega
          calc evaluateAfter execute depth 0 program s
              = evaluateAfter execute depth 0 rest (pushAll [first] s) :=
                evaluateAfter_next? next (by omega)
            _ = evaluateAfter execute depth 0 unread (pushAll others (pushAll [first] s)) :=
                ih behind more
            _ = evaluateAfter execute depth 0 unread (pushAll (first :: others) s) := by
                rw [pushAll_pushAll]
      · cases row

end Eval

/-! ## The shortest form -/

namespace Bytes

theorem uint?_one {bytes later : Bytes} {number : Nat} (h : bytes.uint? 1 = some (number, later)) :
    number ≤ 255 := by
  rcases Option.map_eq_some_iff.1 h with ⟨⟨front, rest⟩, taken, same⟩
  cases same
  rcases List.length_eq_one_iff.1 (split?_eq_some_iff.1 taken).1 with ⟨byte, rfl⟩
  have most := byte.toNat_lt
  simp only [bigEndian, List.foldl_cons, List.foldl_nil]
  omega

theorem int?_two {bytes later : Bytes} {number : Int} (h : bytes.int? 2 = some (number, later)) :
    -32768 ≤ number ∧ number ≤ 32767 := by
  rcases Option.map_eq_some_iff.1 h with ⟨⟨digits, rest⟩, _, same⟩
  have least := Int.le_bmod (x := digits) (m := 65536) (by decide)
  have most := Int.bmod_lt (x := digits) (m := 65536) (by decide)
  simp only [signed, Nat.reduceMul, Nat.reduceShiftLeft, Prod.mk.injEq] at same
  omega

end Bytes

namespace Token

theorem demand_eq_ok {α : Type} {result : Option α} {value : α} :
    demand result = .ok value ↔ result = some value := by
  cases result <;> simp [demand]

/-- A whole number that is read is short, and has been read from as many bytes at least as it is
written in. -/
theorem short_of_read (h : read code rest = .ok (.operand (.int v), used)) :
    (Operand.int v).Short ∧ intSize v.toInt ≤ used + 1 := by
  have sized {number : Int} {used : Nat} (least : -32768 ≤ number) (most : number ≤ 32767)
      (form : number.natAbs ≤ 107 ∨ 1 ≤ used ∧ number.natAbs ≤ 1131 ∨ 2 ≤ used) :
      (Operand.int (.ofInt number)).Short ∧ intSize (Int32.ofInt number).toInt ≤ used + 1 := by
    simp only [Operand.Short, Int32.toInt_ofInt_of_le (n := number) (by omega) (by omega)]
    refine ⟨⟨least, most⟩, ?_⟩
    unfold intSize
    split_ifs <;> omega
  -- the branches of the definition, by the first byte
  by_cases short : code = shortByte
  · simp only [read, if_pos short] at h
    rcases Except.bind_eq_ok.1 h with ⟨⟨number, later⟩, taken, same⟩
    cases same
    have bounds := Bytes.int?_two (demand_eq_ok.1 taken)
    exact sized bounds.1 bounds.2 (by omega)
  by_cases fixed : code = fixedByte
  · simp only [read, if_neg short, if_pos fixed] at h
    rcases Except.bind_eq_ok.1 h with ⟨⟨number, later⟩, taken, same⟩
    cases same
  have last : code.toNat ≠ 255 := fun all => fixed (UInt8.toNat_inj.1 all)
  have bound := code.toNat_lt
  by_cases negative : 251 ≤ code
  · simp only [read, if_neg short, if_neg fixed, if_pos negative] at h
    rcases Except.bind_eq_ok.1 h with ⟨⟨low, later⟩, taken, same⟩
    cases same
    have byte := Bytes.uint?_one (demand_eq_ok.1 taken)
    have page : 251 ≤ code.toNat := UInt8.le_iff_toNat_le.1 negative
    exact sized (by omega) (by omega) (by omega)
  by_cases positive : 247 ≤ code
  · simp only [read, if_neg short, if_neg fixed, if_neg negative, if_pos positive] at h
    rcases Except.bind_eq_ok.1 h with ⟨⟨low, later⟩, taken, same⟩
    cases same
    have byte := Bytes.uint?_one (demand_eq_ok.1 taken)
    have page : 247 ≤ code.toNat := UInt8.le_iff_toNat_le.1 positive
    have next : ¬ 251 ≤ code.toNat := fun more => negative (UInt8.le_iff_toNat_le.2 more)
    exact sized (by omega) (by omega) (by omega)
  by_cases single : 32 ≤ code
  · simp only [read, if_neg short, if_neg fixed, if_neg negative, if_neg positive,
      if_pos single] at h
    cases h
    have page : 32 ≤ code.toNat := UInt8.le_iff_toNat_le.1 single
    have next : ¬ 247 ≤ code.toNat := fun more => positive (UInt8.le_iff_toNat_le.2 more)
    exact sized (by omega) (by omega) (by omega)
  -- the other tokens are operators
  · simp only [read, if_neg short, if_neg fixed, if_neg negative, if_neg positive,
      if_neg single] at h
    split at h
    · rcases Except.bind_eq_ok.1 h with ⟨⟨second, later⟩, taken, same⟩
      dsimp only at same
      split at same <;> cases same
    · split at h <;> cases h

theorem ofInt_toNat (byte : UInt8) : Bytes.ofInt 1 byte.toNat = [byte] := by
  have bound := byte.toNat_lt
  have spelled : ((UInt8.ofInt byte.toNat).toNat : Int) = byte.toNat :=
    toNat_ofInt (by omega) (by omega)
  have same : UInt8.ofInt byte.toNat = byte := UInt8.toNat_inj.1 (by omega)
  exact congrArg (fun last => [last]) same

/-- The forms of two bytes are those in which their numbers are written. -/
theorem encodeInt_of_pair (least : 247 ≤ code) (most : code ≤ 254) (low : UInt8) :
    ∃ v : Int32, encodeInt v.toInt = .ok [code, low] ∧
      ∀ rest, next? (code :: low :: rest) = some (.ok (.operand (.int v), rest)) := by
  have byte := low.toNat_lt
  have first : 247 ≤ code.toNat := UInt8.le_iff_toNat_le.1 least
  have last : code.toNat ≤ 254 := UInt8.le_iff_toNat_le.1 most
  by_cases negative : 251 ≤ code
  · have page : 251 ≤ code.toNat := UInt8.le_iff_toNat_le.1 negative
    refine ⟨.ofInt (-(code.toNat - 251) * 256 - low.toNat - 108), ?_, fun rest =>
      next?_of_read [low] (read_of_negative negative most low rest)⟩
    rw [Int32.toInt_ofInt_of_le (by omega) (by omega), encodeInt, if_neg (by omega),
      if_neg (by omega), if_pos (by omega), ← ofInt_toNat low, ← List.singleton_append,
      ← ofInt_toNat code]
    congr 3 <;> omega
  · have page : ¬ 251 ≤ code.toNat := fun more => negative (UInt8.le_iff_toNat_le.2 more)
    refine ⟨.ofInt ((code.toNat - 247) * 256 + low.toNat + 108), ?_, fun rest =>
      next?_of_read [low] (read_of_positive least (by grind) low rest)⟩
    rw [Int32.toInt_ofInt_of_le (by omega) (by omega), encodeInt, if_neg (by omega),
      if_pos (by omega), ← ofInt_toNat low, ← List.singleton_append, ← ofInt_toNat code]
    congr 3 <;> omega

/-- A whole number is written in no more bytes than any form has in which it is read. -/
theorem encodeInt_of_next? {consumed : Bytes}
    (h : next? (consumed ++ later) = some (.ok (.operand (.int v), later))) :
    ∃ bytes, encodeInt v.toInt = .ok bytes ∧ bytes.length ≤ consumed.length := by
  rcases next?_eq_ok.1 h with ⟨code, rest, used, whole, read, left⟩
  rcases short_of_read read with ⟨short, shortest⟩
  rcases exists_encodeInt short.1 short.2 with ⟨bytes, written, size, _⟩
  refine ⟨bytes, written, ?_⟩
  have enough := (read_local read).1
  have total := congrArg List.length whole
  have unread := congrArg List.length left
  simp only [List.length_append, List.length_cons, List.length_drop] at total unread
  omega

end Token

namespace Eval

/-- Short operands can be written in a row so that they are read again, whatever bytes follow, and
are pushed by the evaluation if there is room for them.  No byte string that is shorter than what is
written for a whole number is read as that number, and the forms of two bytes are those in which
their numbers are written. -/
theorem evaluate_row :
    (∀ operands : List Operand, (∀ a ∈ operands, a.Short) →
      ∃ bytes, Token.encodeAll operands = .ok bytes ∧ ∀ rest,
        Token.row? operands.length (bytes ++ rest) = some (operands.map .operand, rest) ∧
        ∀ (font : Font) (limit levels : Nat) (frame : Frame) (s : Session),
          s.machine.stack.size + operands.length ≤ maxOperands →
          evaluate font limit levels frame (bytes ++ rest) s =
            evaluate font limit levels frame rest (pushAll operands s)) ∧
    (∀ (v : Int32) (consumed later : Bytes),
      Token.next? (consumed ++ later) = some (.ok (.operand (.int v), later)) →
      ∃ bytes, Token.encodeInt v.toInt = .ok bytes ∧ bytes.length ≤ consumed.length) ∧
    ∀ code low : UInt8, 247 ≤ code → code ≤ 254 →
      ∃ v : Int32, Token.encodeInt v.toInt = .ok [code, low] ∧
        ∀ rest, Token.next? (code :: low :: rest) = some (.ok (.operand (.int v), rest)) := by
  refine ⟨fun operands short => ?_, fun v consumed later read => Token.encodeInt_of_next? read,
    fun code low least most => Token.encodeInt_of_pair least most low⟩
  rcases Token.exists_row?_encodeAll short with ⟨bytes, written, row⟩
  refine ⟨bytes, written, fun rest => ⟨row rest, fun font limit levels frame s room => ?_⟩⟩
  simp only [evaluate_eq]
  exact evaluateAfter_row (row rest) room

/-- Numbers at the ends of the three forms and a 16.16 number are written before the operator that
ends a glyph.  A number that could do with two bytes is read from three. -/
theorem evaluate_row_forms :
    let font : Font := { glyphs := .ofList [], globalSubrs := .empty, subfonts := [{}] }
    let operands : List Operand :=
      [.int (-107), .int 1131, .int (-32768), .fixed (.ofRaw 98304)]
    let bytes : Bytes := [32, 250, 255, 28, 128, 0, 255, 0, 1, 128, 0]
    Token.encodeAll operands = .ok bytes ∧
      Token.row? 4 (bytes ++ [14]) = some (operands.map .operand, [14]) ∧
      evaluate font 10 10 ⟨{}, false, 0⟩ (bytes ++ [14]) {} =
        evaluate font 10 10 ⟨{}, false, 0⟩ [14] (pushAll operands {}) ∧
      (∃ shortest, Token.encodeInt (-1131) = .ok shortest ∧ shortest.length ≤ 3) ∧
      ∃ v : Int32, Token.encodeInt v.toInt = .ok [254, 255] ∧
        Token.next? [254, 255, 14] = some (.ok (.operand (.int v), [14])) := by
  intro font operands bytes
  obtain ⟨rows, shortest, pairs⟩ := evaluate_row
  obtain ⟨bytes', written, read⟩ := rows operands (by decide)
  have same : bytes = bytes' := by
    have here : Token.encodeAll operands = .ok bytes := by decide +kernel
    exact Except.ok.inj (here.symm.trans written)
  subst same
  obtain ⟨row, evaluated⟩ := read [14]
  obtain ⟨v, again, pair⟩ := pairs 254 255 (by decide) (by decide)
  exact ⟨written, row, evaluated font 10 10 _ {} (by decide),
    shortest (-1131) [28, 251, 149] [14] (by decide +kernel), v, again, pair [14]⟩

end Eval

end Type2Glyphs
