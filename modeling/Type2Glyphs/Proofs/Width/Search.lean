import Type2Glyphs.Charstring.Operands
import Type2Glyphs.Load.Session

/-!
# Search — the operator that looks for a width

The first operator that empties the stack decides about the width of a glyph.  It looks for one only
if it is a stem, mask, move or `endchar`, and finds one if there is an operand more than it takes.
The trace tells which operator this was, and on what stack.
-/

namespace Type2Glyphs

namespace Operator

/-- Whether the operator takes its operands from the whole stack, and leaves it empty. -/
def emptiesStack : Operator → Bool
  | .stem _ | .mask _ | .move _ | .path _ | .endchar | .seac | .dotsection => true
  | _ => false

/-- Whether the operator looks for a width below its operands, if it is the first one that empties
the stack. -/
def looksForWidth : Operator → Bool
  | .stem _ | .mask _ | .move _ | .endchar => true
  | _ => false

/-- Whether an operator that looks for a width finds one if there are so many operands. -/
def findsWidth : Operator → Nat → Bool
  | .stem _, count | .mask _, count => count % 2 = 1
  | .move op, count => op.arity < count
  | .endchar, count => count = 1 ∨ count = 5
  | _, _ => false

theorem emptiesStack_of_looksForWidth {op : Operator} (looks : op.looksForWidth = true) :
    op.emptiesStack = true := by
  cases op with
  | stem | mask | move | endchar => rfl
  | _ => cases looks

end Operator

namespace TraceEntry

/-- Whether the stack is not emptied yet, and has room for a width below its operands. -/
def awaitsWidth : TraceEntry → Bool
  | .operator _ op stack => !op.emptiesStack && stack.size < maxOperands
  | _ => true

/-- Whether a width is looked for in vain, and there would be room for one. -/
def missesWidth : TraceEntry → Bool
  | .operator _ op stack =>
      op.looksForWidth && stack.size < maxOperands && !op.findsWidth stack.size
  | _ => false

end TraceEntry

/-- Whether the first operator that empties the stack looks for a width in vain, with room for one
operand more on the stack up to then. -/
def lacksWidth (trace : List TraceEntry) : Bool :=
  (trace.reverse.find? fun entry => !entry.awaitsWidth).any TraceEntry.missesWidth

variable {earlier : List TraceEntry} {entry : TraceEntry}

theorem find?_awaitsWidth (awaits : ∀ entry ∈ earlier, entry.awaitsWidth = true) :
    earlier.reverse.find? (fun entry => !entry.awaitsWidth) = none := by
  refine List.find?_eq_none.2 fun entry member => ?_
  rw [awaits entry (List.mem_reverse.1 member)]
  decide

theorem lacksWidth_of_awaits (awaits : ∀ entry ∈ earlier, entry.awaitsWidth = true) :
    lacksWidth earlier = false := by
  simp only [lacksWidth, find?_awaitsWidth awaits, Option.any_none]

/-- What comes after the first operator that empties the stack does not matter. -/
theorem lacksWidth_append (later : List TraceEntry)
    (awaits : ∀ entry ∈ earlier, entry.awaitsWidth = true) (decides : entry.awaitsWidth = false) :
    lacksWidth (later ++ entry :: earlier) = entry.missesWidth := by
  have found : (later ++ entry :: earlier).reverse.find? (fun entry => !entry.awaitsWidth) =
      some entry := by
    simp only [List.reverse_append, List.reverse_cons, List.append_assoc, List.find?_append,
      find?_awaitsWidth awaits, decides, Bool.not_false, Option.none_or,
      List.singleton_append, List.find?_cons_of_pos]
  simp only [lacksWidth, found, Option.any_some]

end Type2Glyphs
