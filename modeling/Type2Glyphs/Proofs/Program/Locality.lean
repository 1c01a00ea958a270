import Type2Glyphs.Charstring.Evaluate
import Type2Glyphs.Proofs.Outcome

/-!
# Locality — what a glyph program does with the bytes ahead

A token is read from its own bytes, and an operator looks at no bytes but those of its mask.  So
what follows them can be replaced, and the same is done.

* `Token.read_local` and `Eval.execute_local` say so for tokens and for operators;
* the number of bytes that an operator passes over is `Flow.skip`.
-/

namespace Type2Glyphs

open Outcome

/-! ## Readers -/

/-- A reader takes `size` bytes from the front and looks at nothing else. -/
def Bytes.TakesFront {α : Type} (size : Nat) (reader : Bytes → Option (α × Bytes)) : Prop :=
  ∀ ⦃bytes value later⦄, reader bytes = some (value, later) →
    size ≤ bytes.length ∧ ∀ more, reader (bytes.take size ++ more) = some (value, more)

namespace Bytes

theorem takesFront_split? (size : Nat) : TakesFront size (split? size) := by
  intro bytes front later h
  rcases split?_eq_some_iff.1 h with ⟨rfl, rfl⟩
  constructor
  · simp only [List.length_append]
    exact Nat.le_add_right _ _
  · intro more
    simp only [List.take_left]
    exact split?_append more

theorem TakesFront.map {α β : Type} {size : Nat} {reader : Bytes → Option (α × Bytes)}
    (h : TakesFront size reader) (f : α → β) :
    TakesFront size fun bytes => (reader bytes).map fun (value, rest) => (f value, rest) := by
  intro bytes value later read
  rcases Option.map_eq_some_iff.1 read with ⟨⟨a, rest⟩, inner, same⟩
  cases same
  rcases h inner with ⟨long, elsewhere⟩
  refine ⟨long, ?_⟩
  intro more
  exact congrArg (Option.map fun (value, rest) => (f value, rest)) (elsewhere more)

theorem takesFront_uint? (size : Nat) : TakesFront size (uint? size) :=
  (takesFront_split? size).map bigEndian

theorem takesFront_int? (size : Nat) : TakesFront size (int? size) :=
  (takesFront_uint? size).map (signed (8 * size))

end Bytes

/-! ## Tokens -/

namespace Token

variable {code : UInt8} {rest : Bytes} {token : Token} {used : Nat}

theorem next?_eq_ok {program later : Bytes} {token : Token} :
    next? program = some (.ok (token, later)) ↔ ∃ code rest used,
      program = code :: rest ∧ read code rest = .ok (token, used) ∧ rest.drop used = later := by
  cases program with
  | nil =>
      constructor
      · intro h
        cases h
      · rintro ⟨_, _, _, impossible, _⟩
        cases impossible
  | cons code rest =>
      constructor
      · intro h
        have mapped := Option.some.inj h
        cases read : Token.read code rest with
        | error fault =>
            rw [read] at mapped
            cases mapped
        | ok pair =>
            rw [read] at mapped
            cases mapped
            exact ⟨code, rest, pair.2, rfl, read, rfl⟩
      · rintro ⟨_, _, used, ⟨⟩, read, rfl⟩
        simp only [next?, read]
        rfl

/-- A token that is made from what a reader takes uses as many bytes. -/
theorem demand_local {α : Type} {size : Nat} {reader : Bytes → Option (α × Bytes)}
    (takes : Bytes.TakesFront size reader)
    {make : α × Bytes → Except CharstringFault (Token × Nat)}
    (blind : ∀ a later more, make (a, later) = make (a, more))
    (sized : ∀ pair, make pair = .ok (token, used) → used = size)
    (h : (demand (reader rest) >>= make) = .ok (token, used)) :
    used ≤ rest.length ∧ ∀ more,
      (demand (reader (rest.take used ++ more)) >>= make) = .ok (token, used) := by
  cases read : reader rest with
  | none =>
      rw [read] at h
      cases h
  | some pair =>
      rcases pair with ⟨a, later⟩
      rw [read] at h
      have made : make (a, later) = .ok (token, used) := h
      have same := sized (a, later) made
      subst same
      rcases takes read with ⟨long, elsewhere⟩
      refine ⟨long, ?_⟩
      intro more
      rw [elsewhere more]
      exact (blind a more later).trans made

/-- A token that succeeds is read in the same way whatever follows the bytes that it uses. -/
theorem read_local (h : read code rest = .ok (token, used)) :
    used ≤ rest.length ∧ ∀ more, read code (rest.take used ++ more) = .ok (token, used) := by
  -- with no byte used, there are none to look at
  have alone (same : ∀ bytes, read code bytes = read code rest) (zero : used = 0) :
      used ≤ rest.length ∧ ∀ more, read code (rest.take used ++ more) = .ok (token, used) := by
    subst zero
    exact ⟨Nat.zero_le _, fun more => (same _).trans h⟩
  -- the branches of the definition, by the first byte
  by_cases short : code = shortByte
  · simp only [read, if_pos short] at h ⊢
    refine demand_local (Bytes.takesFront_int? 2) (fun _ _ _ => rfl) ?_ h
    rintro pair ⟨⟩
    rfl
  by_cases fixed : code = fixedByte
  · simp only [read, if_neg short, if_pos fixed] at h ⊢
    refine demand_local (Bytes.takesFront_int? 4) (fun _ _ _ => rfl) ?_ h
    rintro pair ⟨⟩
    rfl
  by_cases negative : 251 ≤ code
  · simp only [read, if_neg short, if_neg fixed, if_pos negative] at h ⊢
    refine demand_local (Bytes.takesFront_uint? 1) (fun _ _ _ => rfl) ?_ h
    rintro pair ⟨⟩
    rfl
  by_cases positive : 247 ≤ code
  · simp only [read, if_neg short, if_neg fixed, if_neg negative, if_pos positive] at h ⊢
    refine demand_local (Bytes.takesFront_uint? 1) (fun _ _ _ => rfl) ?_ h
    rintro pair ⟨⟩
    rfl
  by_cases single : 32 ≤ code
  · have same : ∀ bytes, read code bytes = read code rest := by
      intro bytes
      simp only [read, if_neg short, if_neg fixed, if_neg negative, if_neg positive, if_pos single]
    apply alone same
    simp only [read, if_neg short, if_neg fixed, if_neg negative, if_neg positive,
      if_pos single] at h
    cases h
    rfl
  by_cases escape : code = Operator.escapeByte
  · simp only [read, if_neg short, if_neg fixed, if_neg negative, if_neg positive, if_neg single,
      if_pos escape] at h ⊢
    refine demand_local (Bytes.takesFront_uint? 1) (fun _ _ _ => rfl) ?_ h
    intro pair made
    split at made <;> cases made
    rfl
  · have same : ∀ bytes, read code bytes = read code rest := by
      intro bytes
      simp only [read, if_neg short, if_neg fixed, if_neg negative, if_neg positive,
        if_neg single, if_neg escape]
    apply alone same
    simp only [read, if_neg short, if_neg fixed, if_neg negative, if_neg positive,
      if_neg single, if_neg escape] at h
    split at h <;> cases h
    rfl

/-- A token that succeeds is read in the same way with more bytes behind it. -/
theorem read_append (h : read code rest = .ok (token, used)) (more : Bytes) :
    read code (rest ++ more) = .ok (token, used) := by
  have elsewhere := (read_local h).2 (rest.drop used ++ more)
  rwa [← List.append_assoc, List.take_append_drop] at elsewhere

end Token

/-! ## Operators -/

/-- The number of bytes that an operator passes over. -/
def Flow.skip : Flow → Nat
  | .proceed skip => skip
  | .stop _ => 0

/-- Only masks pass over bytes, and only the return operator stops without ending the glyph. -/
def Flow.Follows (op : Operator) : Flow → Prop
  | .proceed skip => skip = 0 ∨ ∃ mask, op = .mask mask
  | .stop endsGlyph => endsGlyph = true ∨ op = .ret

namespace Eval

variable {font : Font} {limit : Nat} {nested : Option Evaluator} {frame : Frame} {op : Operator}
  {s t : Session} {flow : Flow}

/-- A program comes to no other values than these. -/
def Yields {α : Type} (values : α → Prop) (p : Eval α) : Prop :=
  ∀ ⦃s a t⦄, p s = .ok a t → values a

section Yields

variable {α β : Type} {values : β → Prop}

theorem Yields.pure {b : β} (h : values b) : Yields values (Pure.pure b) := by
  rintro s a t ⟨⟩
  exact h

theorem Yields.throw (e : LoadError) : Yields values (throw e) := by
  intro s a t impossible
  cases impossible

theorem Yields.bind (p : Eval α) {k : α → Eval β} (h : ∀ a, Yields values (k a)) :
    Yields values (p >>= k) := by
  intro s b u run
  rcases bind_eq_ok.1 run with ⟨a, t, _, last⟩
  exact h a last

end Yields

theorem call_yields (subrs : Index) :
    Yields (fun flow => flow = .proceed 0 ∨ flow = .stop true) (call subrs limit nested frame) := by
  refine Yields.bind _ fun operand => Yields.bind _ fun body => ?_
  cases nested with
  | none => exact Yields.throw _
  | some evaluate =>
      refine Yields.bind _ fun ending => Yields.pure ?_
      cases ending.endsGlyph with
      | false => exact .inl rfl
      | true => exact .inr rfl

theorem execute_yields (unread : Bytes) :
    Yields (Flow.Follows op) (execute font limit nested frame op unread) := by
  have called : ∀ subrs, Yields (Flow.Follows op) (call subrs limit nested frame) := by
    intro subrs s flow t run
    rcases call_yields subrs run with rfl | rfl
    · exact .inl rfl
    · exact .inl rfl
  cases op with
  | mask op => exact Yields.bind _ fun size => Yields.pure (.inr ⟨op, rfl⟩)
  | callsubr =>
      simp only [execute]
      cases frame.subfont.localSubrs with
      | none => exact Yields.throw _
      | some subrs => exact called subrs
  | callgsubr => exact called font.globalSubrs
  | ret => exact Yields.pure (.inr rfl)
  | _ => exact Yields.bind _ fun _ => Yields.pure (.inl rfl)

theorem readMask_local {op : MaskOp} {unread : Bytes} {size : Nat}
    (h : readMask op unread s = .ok size t) :
    size ≤ unread.length ∧ ∀ more, readMask op (unread.take size ++ more) s = .ok size t := by
  rcases bind_eq_ok.1 h with ⟨count, s', counted, reading⟩
  cases counted
  cases split : unread.split? ((s.machine.stemCount + 7) / 8) with
  | none =>
      simp only [split] at reading
      cases reading
  | some pair =>
      rcases pair with ⟨bits, later⟩
      simp only [split] at reading
      rcases bind_eq_ok.1 reading with ⟨_, called, hinted, clearing⟩
      rcases bind_eq_ok.1 clearing with ⟨_, cleared, _, last⟩
      cases last
      rcases Bytes.takesFront_split? _ split with ⟨long, elsewhere⟩
      refine ⟨long, ?_⟩
      intro more
      apply (bind_ok (gets_apply s) _).trans
      simp only [elsewhere more]
      exact reading

theorem mask_local {op : MaskOp} {unread : Bytes} {size : Nat} (h : mask op unread s = .ok size t) :
    size ≤ unread.length ∧ ∀ more, mask op (unread.take size ++ more) s = .ok size t := by
  rcases bind_eq_ok.1 h with ⟨values, s', taken, rest⟩
  have again : ∀ bytes, mask op bytes s = _ := fun bytes => bind_ok taken _
  -- stems that are declared first are counted, and so they change the length of the mask
  by_cases none : values ≠ []
  · simp only [if_pos none] at rest again
    rcases bind_eq_ok.1 rest with ⟨_, s'', declared, reading⟩
    rcases readMask_local reading with ⟨long, elsewhere⟩
    refine ⟨long, ?_⟩
    intro more
    exact (again _).trans ((bind_ok declared _).trans (elsewhere more))
  · simp only [if_neg none] at rest again
    rcases readMask_local rest with ⟨long, elsewhere⟩
    exact ⟨long, fun more => (again _).trans (elsewhere more)⟩

/-- No other operator looks at the bytes ahead at all. -/
theorem execute_of_unmasked (unmasked : ∀ mask, op ≠ .mask mask) (bytes unread : Bytes) :
    execute font limit nested frame op bytes = execute font limit nested frame op unread := by
  cases op with
  | mask op => exact absurd rfl (unmasked op)
  | _ => rfl

/-- An operator that succeeds does the same whatever follows the bytes that it passes over. -/
theorem execute_local {unread : Bytes}
    (h : execute font limit nested frame op unread s = .ok flow t) :
    flow.skip ≤ unread.length ∧ ∀ more,
      execute font limit nested frame op (unread.take flow.skip ++ more) s = .ok flow t := by
  by_cases masked : ∃ mask, op = .mask mask
  · rcases masked with ⟨op, rfl⟩
    rcases bind_eq_ok.1 h with ⟨size, s', read, last⟩
    cases last
    rcases mask_local read with ⟨long, elsewhere⟩
    exact ⟨long, fun more => bind_ok (elsewhere more) _⟩
  · have unmasked : ∀ mask, op ≠ .mask mask := fun mask same => masked ⟨mask, same⟩
    have none : flow.skip = 0 := by
      cases flow with
      | stop _ => rfl
      | proceed skip => exact (execute_yields unread h).resolve_right masked
    refine ⟨none ▸ Nat.zero_le _, ?_⟩
    intro more
    rw [execute_of_unmasked unmasked _ unread]
    exact h

/-- An operator that succeeds does the same with more bytes ahead. -/
theorem execute_append {unread : Bytes}
    (h : execute font limit nested frame op unread s = .ok flow t) (more : Bytes) :
    execute font limit nested frame op (unread ++ more) s = .ok flow t := by
  have elsewhere := (execute_local h).2 (unread.drop flow.skip ++ more)
  rwa [← List.append_assoc, List.take_append_drop] at elsewhere

end Eval

end Type2Glyphs
