import Mathlib.Data.List.Forall2
import Type2Glyphs.Charstring.Arithmetic

/-!
# Operands — whole numbers and 16.16 numbers of the same value

Operators read operands as the kind of number that they need, so a whole number and the 16.16 number
of the same value do equally well, as long as there is one: a 16.16 number holds whole numbers of
16 bits only.

* `Operand.SameValue` relates operands, and `OperandStack.SameValues` stacks of them;
* `Corresponds` relates the two outcomes of a stack operator, and is put together along its steps;
* `StackOp.apply_sameValues` says that stack operators give related stacks from related ones, if the
  whole numbers that they compute are short.
-/

namespace Type2Glyphs

namespace Operand

/-! ## Operands -/

/-- A whole number that fits into 16 bits, or a 16.16 number. -/
def Short : Operand → Prop
  | .int value => -32768 ≤ value.toInt ∧ value.toInt ≤ 32767
  | .fixed _ => True

instance : DecidablePred Short
  | .int _ => inferInstanceAs (Decidable (_ ∧ _))
  | .fixed _ => inferInstanceAs (Decidable True)

/-- The operands are equal, or one is a short whole number and the other one the 16.16 number of the
same value. -/
inductive SameValue : Operand → Operand → Prop
  | refl (a : Operand) : SameValue a a
  | fixed {value : Int32} (short : (Operand.int value).Short) :
      SameValue (.int value) (.fixed (.ofInt value.toInt))
  | int {value : Int32} (short : (Operand.int value).Short) :
      SameValue (.fixed (.ofInt value.toInt)) (.int value)

theorem raw_ofInt {value : Int32} (short : (Operand.int value).Short) :
    (Fixed.ofInt value.toInt).raw = value.toInt * 65536 := by
  obtain ⟨low, high⟩ := short
  exact Fixed.raw_ofRaw (by omega) (by omega)

/-- As a 16.16 number a whole number is shifted by 16 bits. -/
theorem bits_toFixed (value : Int32) : (toFixed (.int value)).bits = value * 65536 := by
  simp [toFixed, Fixed.ofInt, Fixed.ofRaw, Int32.ofInt_mul]

theorem toFixed_add (a b : Operand) : (a.add b).toFixed = a.toFixed + b.toFixed := by
  match a, b with
  | .int a, .int b =>
      have bits : (toFixed (.int (a + b))).bits =
          (toFixed (.int a)).bits + (toFixed (.int b)).bits := by
        rw [bits_toFixed, bits_toFixed, bits_toFixed, Int32.add_mul]
      exact congrArg Fixed.mk bits
  | .int _, .fixed _ => rfl
  | .fixed _, .int _ => rfl
  | .fixed _, .fixed _ => rfl

theorem toFixed_sub (a b : Operand) : (a.sub b).toFixed = a.toFixed - b.toFixed := by
  match a, b with
  | .int a, .int b =>
      have bits : (toFixed (.int (a - b))).bits =
          (toFixed (.int a)).bits - (toFixed (.int b)).bits := by
        rw [bits_toFixed, bits_toFixed, bits_toFixed, Int32.sub_mul]
      exact congrArg Fixed.mk bits
  | .int _, .fixed _ => rfl
  | .fixed _, .int _ => rfl
  | .fixed _, .fixed _ => rfl

theorem toFixed_neg (a : Operand) : a.neg.toFixed = -a.toFixed := by
  match a with
  | .int a =>
      have bits : (toFixed (.int (-a))).bits = -(toFixed (.int a)).bits := by
        rw [bits_toFixed, bits_toFixed, Int32.neg_mul]
      exact congrArg Fixed.mk bits
  | .fixed _ => rfl

/-- Short operands are determined by their 16.16 numbers, up to the kind. -/
theorem sameValue_of_toFixed {a b : Operand} (same : b.toFixed = a.toFixed) (short : a.Short)
    (short' : b.Short) : a.SameValue b := by
  match a, b with
  | .fixed a, .fixed b =>
      cases same
      exact .refl _
  | .int a, .fixed b =>
      cases same
      exact .fixed short
  | .fixed a, .int b =>
      cases same
      exact .int short'
  | .int a, .int b =>
      -- nothing was cut off, so the numbers are equal before the shift too
      have raw : b.toInt * 65536 = a.toInt * 65536 := by
        rw [← raw_ofInt short, ← raw_ofInt short']
        exact congrArg Fixed.raw same
      have equal : b = a := Int32.toInt_inj.1 (by omega)
      rw [equal]
      exact .refl _

namespace SameValue

variable {a a' b b' : Operand}

theorem toFixed (h : SameValue a a') : a'.toFixed = a.toFixed := by
  cases h <;> rfl

theorem floor_ofInt {value : Int32} (short : (Operand.int value).Short) :
    (Fixed.ofInt value.toInt).floor = value := by
  rw [Fixed.floor, raw_ofInt short, Int.mul_ediv_cancel _ (by decide)]
  exact Int32.ofInt_toInt value

theorem toInt (h : SameValue a a') : a'.toInt = a.toInt := by
  cases h with
  | refl => rfl
  | fixed short => exact floor_ofInt short
  | int short => exact (floor_ofInt short).symm

/-! ### Results of arithmetic -/

theorem add (h : SameValue a a') (h' : SameValue b b') (short : (a.add b).Short)
    (short' : (a'.add b').Short) : SameValue (a.add b) (a'.add b') := by
  refine sameValue_of_toFixed ?_ short short'
  rw [toFixed_add, toFixed_add, h.toFixed, h'.toFixed]

theorem sub (h : SameValue a a') (h' : SameValue b b') (short : (a.sub b).Short)
    (short' : (a'.sub b').Short) : SameValue (a.sub b) (a'.sub b') := by
  refine sameValue_of_toFixed ?_ short short'
  rw [toFixed_sub, toFixed_sub, h.toFixed, h'.toFixed]

theorem neg (h : SameValue a a') (short : a.neg.Short) (short' : a'.neg.Short) :
    SameValue a.neg a'.neg := by
  refine sameValue_of_toFixed ?_ short short'
  rw [toFixed_neg, toFixed_neg, h.toFixed]

/-- Short numbers have their sign as 16.16 numbers too. -/
theorem toFixed_abs {value : Int32} (short : (Operand.int value).Short) :
    (Operand.int value).abs.toFixed = (Fixed.ofInt value.toInt).abs := by
  have sign : (Fixed.ofInt value.toInt).raw < 0 ↔ value < 0 := by
    rw [raw_ofInt short, Int32.lt_iff_toInt_lt, Int32.toInt_zero]
    omega
  simp only [Operand.abs, Fixed.abs, sign]
  split
  · exact toFixed_neg (.int value)
  · rfl

theorem abs (h : SameValue a a') (fits : a.abs.Short) (fits' : a'.abs.Short) :
    SameValue a.abs a'.abs := by
  refine sameValue_of_toFixed ?_ fits fits'
  cases h with
  | refl => rfl
  | fixed short => exact (toFixed_abs short).symm
  | int short => exact toFixed_abs short

end SameValue

end Operand

/-! ## Stacks -/

namespace OperandStack

/-- The stacks have operands of the same values. -/
def SameValues (stack stack' : OperandStack) : Prop :=
  List.Forall₂ Operand.SameValue stack.entries stack'.entries

/-- Outcomes with the same fault, or with stacks of the same values. -/
inductive Corresponds : Except StackFault OperandStack → Except StackFault OperandStack → Prop
  | ok {stack stack' : OperandStack} (same : stack.SameValues stack') :
      Corresponds (.ok stack) (.ok stack')
  | error (fault : StackFault) : Corresponds (.error fault) (.error fault)

variable {stack stack' : OperandStack} {a a' : Operand}

namespace SameValues

/-- Stacks of the same values are both empty, or have operands of the same value on top. -/
@[elab_as_elim]
theorem elim {motive : ∀ stack stack', SameValues stack stack' → Prop}
    (empty : motive ⟨[]⟩ ⟨[]⟩ .nil)
    (push : ∀ {a a' : Operand} {below below' : List Operand} (same : a.SameValue a')
      (h : SameValues ⟨below⟩ ⟨below'⟩), motive ⟨a :: below⟩ ⟨a' :: below'⟩ (.cons same h))
    {stack stack' : OperandStack} (h : SameValues stack stack') : motive stack stack' h := by
  rcases stack with ⟨entries⟩
  rcases stack' with ⟨entries'⟩
  cases h with
  | nil => exact empty
  | cons same below => exact push same below

theorem pop (h : SameValues stack stack') :
    (stack.pop = .error .underflow ∧ stack'.pop = .error .underflow) ∨
      ∃ a a' below below', stack.pop = .ok (a, below) ∧ stack'.pop = .ok (a', below') ∧
        a.SameValue a' ∧ below.SameValues below' := by
  cases h using SameValues.elim with
  | empty => exact .inl ⟨rfl, rfl⟩
  | push same below => exact .inr ⟨_, _, _, _, rfl, rfl, same, below⟩

theorem size (h : SameValues stack stack') : stack'.size = stack.size :=
  h.length_eq.symm

theorem map_toFixed {entries entries' : List Operand}
    (h : List.Forall₂ Operand.SameValue entries entries') :
    entries'.map Operand.toFixed = entries.map Operand.toFixed := by
  induction h with
  | nil => rfl
  | cons same _ ih => rw [List.map_cons, List.map_cons, same.toFixed, ih]

theorem operands (h : SameValues stack stack') : stack'.operands = stack.operands := by
  simp only [OperandStack.operands, List.map_reverse]
  rw [map_toFixed h]

end SameValues

namespace Corresponds

theorem pop {k k' : Operand × OperandStack → Except StackFault OperandStack}
    (h : SameValues stack stack')
    (next : ∀ a a' below below', a.SameValue a' → below.SameValues below' →
      Corresponds (k (a, below)) (k' (a', below'))) :
    Corresponds (stack.pop >>= k) (stack'.pop >>= k') := by
  cases h using SameValues.elim with
  | empty => exact .error _
  | push same below => exact next _ _ _ _ same below

/-- Operands of the same value are read alike. -/
theorem read {α : Type} {read : Operand → α} (alike : ∀ a a', a.SameValue a' → read a' = read a)
    {k k' : α × OperandStack → Except StackFault OperandStack} (h : SameValues stack stack')
    (next : ∀ a below below', below.SameValues below' →
      Corresponds (k (a, below)) (k' (a, below'))) :
    Corresponds (stack.pop.map (fun (top, below) => (read top, below)) >>= k)
      (stack'.pop.map (fun (top, below) => (read top, below)) >>= k') := by
  cases h using SameValues.elim with
  | empty => exact .error _
  | @push a a' _ _ same below =>
      show Corresponds (k (read a, _)) (k' (read a', _))
      rw [alike a a' same]
      exact next _ _ _ below

theorem popFixed {k k' : Fixed × OperandStack → Except StackFault OperandStack}
    (h : SameValues stack stack')
    (next : ∀ a below below', below.SameValues below' →
      Corresponds (k (a, below)) (k' (a, below'))) :
    Corresponds (stack.popFixed >>= k) (stack'.popFixed >>= k') :=
  read (fun _ _ same => same.toFixed) h next

theorem popInt {k k' : Int32 × OperandStack → Except StackFault OperandStack}
    (h : SameValues stack stack')
    (next : ∀ a below below', below.SameValues below' →
      Corresponds (k (a, below)) (k' (a, below'))) :
    Corresponds (stack.popInt >>= k) (stack'.popInt >>= k') :=
  read (fun _ _ same => same.toInt) h next

/-- What is pushed has to have the same value only if there is room for it. -/
theorem push (h : SameValues stack stack') (same : stack.size < maxOperands → a.SameValue a') :
    Corresponds (stack.push a) (stack'.push a') := by
  simp only [OperandStack.push, h.size]
  split
  · next room => exact .ok (.cons (same room) h)
  · exact .error _

theorem dup (h : SameValues stack stack') : Corresponds stack.dup stack'.dup := by
  cases h using SameValues.elim with
  | empty => exact .error _
  | push same below => exact push (.cons same below) fun _ => same

theorem exch (h : SameValues stack stack') : Corresponds stack.exch stack'.exch := by
  cases h using SameValues.elim with
  | empty => exact .error _
  | push top below =>
      cases below with
      | nil => exact .error _
      | cons second below => exact .ok (.cons second (.cons top below))

theorem copyFromDepth (h : SameValues stack stack') (depth : Int) :
    Corresponds (stack.copyFromDepth depth) (stack'.copyFromDepth depth) := by
  simp only [OperandStack.copyFromDepth]
  have length := h.length_eq
  rcases Nat.lt_or_ge depth.toNat stack.entries.length with found | missing
  · have found' : depth.toNat < stack'.entries.length := length ▸ found
    rw [List.getElem?_eq_getElem found, List.getElem?_eq_getElem found']
    exact push h fun _ => h.get found found'
  · have missing' : stack'.entries.length ≤ depth.toNat := length ▸ missing
    rw [List.getElem?_eq_none missing, List.getElem?_eq_none missing']
    exact .error _

theorem roll (h : SameValues stack stack') (count shift : Int) :
    Corresponds (stack.roll count shift) (stack'.roll count shift) := by
  simp only [OperandStack.roll, h.size]
  split
  · exact .error _
  · have upper := List.forall₂_take count.toNat h
    have turned := List.forall₂_drop (shift % count).toNat upper
    have others := List.forall₂_take (shift % count).toNat upper
    exact .ok (List.rel_append (List.rel_append turned others) (List.forall₂_drop count.toNat h))

end Corresponds

end OperandStack

open OperandStack

/-! ## Stack operators -/

namespace StackOp

/-- Whether the result of an operator is a whole number if its operands are. -/
def computes : StackOp → Bool
  | .add | .sub | .abs | .neg => true
  | _ => false

/-- What an operator computes of whole numbers or of 16.16 numbers, depending on their kind. -/
def result? (op : StackOp) (stack : OperandStack) : Option Operand :=
  if op.computes then (op.apply stack).toOption.bind fun after => after.entries.head? else none

variable {stack stack' below below' : OperandStack} {op : StackOp} {result result' : Operand}

theorem result?_of_push (computes : op.computes = true)
    (pushed : op.apply stack = below.push result) (room : below.size < maxOperands) :
    op.result? stack = some result := by
  rw [result?, if_pos computes, pushed, OperandStack.push, if_pos room]
  rfl

/-- Results have to have the same value only if they are short. -/
theorem apply_of_push (computes : op.computes = true) (h : below.SameValues below')
    (pushed : op.apply stack = below.push result) (pushed' : op.apply stack' = below'.push result')
    (same : result.Short → result'.Short → result.SameValue result')
    (short : ∀ result ∈ op.result? stack, result.Short)
    (short' : ∀ result ∈ op.result? stack', result.Short) :
    Corresponds (op.apply stack) (op.apply stack') := by
  rw [pushed, pushed']
  refine .push h fun room => same (short _ ?_) (short' _ ?_)
  · exact result?_of_push computes pushed room
  · exact result?_of_push computes pushed' (by rw [h.size]; exact room)

/-- Stack operators do the same with operands of the same values, if what they compute is short. -/
theorem apply_sameValues (op : StackOp) (h : stack.SameValues stack')
    (short : ∀ result ∈ op.result? stack, result.Short)
    (short' : ∀ result ∈ op.result? stack', result.Short) :
    Corresponds (op.apply stack) (op.apply stack') := by
  cases op with
  | and | or | eq | mul =>
      exact .popFixed h fun _ _ _ h => .popFixed h fun _ _ _ h => .push h fun _ => .refl _
  | not => exact .popFixed h fun _ _ _ h => .push h fun _ => .refl _
  | ifelse =>
      refine .popFixed h fun _ _ _ h => .popFixed h fun _ _ _ h => .pop h fun s₂ s₂' _ _ same h =>
        .pop h fun s₁ s₁' _ _ same' h => .push h fun _ => ?_
      split
      · exact same'
      · exact same
  | abs =>
      cases h using SameValues.elim with
      | empty => exact .error _
      | push same h => exact apply_of_push rfl h rfl rfl same.abs short short'
  | neg =>
      cases h using SameValues.elim with
      | empty => exact .error _
      | push same h => exact apply_of_push rfl h rfl rfl same.neg short short'
  | add =>
      cases h using SameValues.elim with
      | empty => exact .error _
      | push last h =>
          -- the first operand is below the last one
          cases h with
          | nil => exact .error _
          | cons first h => exact apply_of_push rfl h rfl rfl (first.add last) short short'
  | sub =>
      cases h using SameValues.elim with
      | empty => exact .error _
      | push last h =>
          cases h with
          | nil => exact .error _
          | cons first h => exact apply_of_push rfl h rfl rfl (first.sub last) short short'
  | div =>
      refine .popFixed h fun b _ _ h => .popFixed h fun a _ _ h => ?_
      dsimp only
      split
      · exact .error _
      · exact .push h fun _ => .refl _
  | sqrt =>
      refine .popFixed h fun a _ _ h => ?_
      dsimp only
      split
      · exact .error _
      · exact .push h fun _ => .refl _
  | drop => exact .pop h fun _ _ _ _ _ h => .ok h
  | dup => exact .dup h
  | exch => exact .exch h
  | index => exact .popInt h fun _ _ _ h => .copyFromDepth h _
  | roll => exact .popInt h fun _ _ _ h => .popInt h fun _ _ _ h => .roll h _ _

end StackOp

end Type2Glyphs
