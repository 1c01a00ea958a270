import Type2Glyphs.Load.Session
import Type2Glyphs.Proofs.Faults

/-!
# Outcome — programs applied to a state

What a program of several steps comes to, from what its steps come to.
-/

namespace Type2Glyphs

/-- The session in which a program ends. -/
def finalSession {α : Type} : EStateM.Result LoadError Session α → Session
  | .ok _ session => session
  | .error _ session => session

namespace Outcome

variable {ε σ α β : Type}

@[simp] theorem get_apply (s : σ) : (get : EStateM ε σ σ) s = .ok s s :=
  rfl

@[simp] theorem modify_apply (f : σ → σ) (s : σ) :
    (modify f : EStateM ε σ PUnit) s = .ok PUnit.unit (f s) :=
  rfl

@[simp] theorem gets_apply {part : Session → α} (s : Session) :
    Eval.gets part s = .ok (part s) s :=
  rfl

/-- What an outcome becomes by the steps that follow. -/
def andThen (k : α → EStateM ε σ β) : EStateM.Result ε σ α → EStateM.Result ε σ β
  | .ok a t => k a t
  | .error e t => .error e t

theorem bind_apply (p : EStateM ε σ α) (k : α → EStateM ε σ β) (s : σ) :
    (p >>= k) s = andThen k (p s) :=
  rfl

/-- A step that succeeds hands its value and its state to what follows. -/
theorem bind_ok {p : EStateM ε σ α} {s t : σ} {a : α} (first : p s = .ok a t)
    (k : α → EStateM ε σ β) : (p >>= k) s = k a t := by
  show EStateM.bind p k s = k a t
  simp only [EStateM.bind, first]

/-- A step that fails is the last one. -/
theorem bind_error {p : EStateM ε σ α} {s t : σ} {e : ε} (first : p s = .error e t)
    (k : α → EStateM ε σ β) : (p >>= k) s = .error e t := by
  show EStateM.bind p k s = .error e t
  simp only [EStateM.bind, first]

/-- Two steps succeed together exactly when the second one does after the first one. -/
theorem bind_eq_ok {p : EStateM ε σ α} {k : α → EStateM ε σ β} {s u : σ} {b : β} :
    (p >>= k) s = .ok b u ↔ ∃ a t, p s = .ok a t ∧ k a t = .ok b u := by
  constructor
  · intro h
    cases first : p s with
    | ok a t =>
        simp only [bind_ok first] at h
        exact ⟨a, t, rfl, h⟩
    | error e t =>
        simp only [bind_error first] at h
        cases h
  · rintro ⟨a, t, first, second⟩
    simp only [bind_ok first]
    exact second

/-- Two steps fail together exactly when the first one fails, or the second one after it. -/
theorem bind_eq_error {p : EStateM ε σ α} {k : α → EStateM ε σ β} {s u : σ} {e : ε} :
    (p >>= k) s = .error e u ↔ p s = .error e u ∨ ∃ a t, p s = .ok a t ∧ k a t = .error e u := by
  constructor
  · intro h
    cases first : p s with
    | ok a t =>
        simp only [bind_ok first] at h
        exact .inr ⟨a, t, rfl, h⟩
    | error e' t =>
        simp only [bind_error first] at h
        cases h
        exact .inl rfl
  · rintro (first | ⟨a, t, first, second⟩)
    · exact bind_error first k
    · simp only [bind_ok first]
      exact second

theorem lift_eq_ok {result : Except LoadError α} {a : α} {s t : Session} :
    Eval.lift result s = .ok a t ↔ result = .ok a ∧ t = s := by
  cases result with
  | error e =>
      constructor
      · intro h
        cases h
      · rintro ⟨h, _⟩
        cases h
  | ok b =>
      constructor
      · intro h
        cases h
        exact ⟨rfl, rfl⟩
      · rintro ⟨h, rfl⟩
        cases h
        rfl

theorem andFinally_eq_ok {p : Eval α} {f : Session → Session} {a : α} {s u : Session} :
    Eval.andFinally p f s = .ok a u ↔ ∃ t, p s = .ok a t ∧ u = f t := by
  simp only [Eval.andFinally]
  cases p s with
  | error e t =>
      constructor
      · intro h
        cases h
      · rintro ⟨t, h, _⟩
        cases h
  | ok b t =>
      constructor
      · intro h
        cases h
        exact ⟨t, rfl, rfl⟩
      · rintro ⟨t, h, rfl⟩
        cases h
        rfl

theorem andFinally_error {p : Eval α} {f : Session → Session} {e : LoadError} {s t : Session}
    (failed : p s = .error e t) : Eval.andFinally p f s = .error e (f t) := by
  simp only [Eval.andFinally]
  rw [failed]

theorem changeStack_eq_ok {f : OperandStack → Except StackFault OperandStack} {s t : Session} :
    Eval.changeStack f s = .ok () t ↔ ∃ stack, f s.machine.stack = .ok stack ∧
      t = s.mapMachine fun machine => { machine with stack := stack } := by
  constructor
  · intro h
    rcases bind_eq_ok.1 h with ⟨_, _, ⟨⟩, h⟩
    rcases bind_eq_ok.1 h with ⟨stack, _, lifted, ⟨⟩⟩
    rcases lift_eq_ok.1 lifted with ⟨changed, rfl⟩
    exact ⟨stack, Except.mapError_eq_ok.1 changed, rfl⟩
  · rintro ⟨stack, changed, rfl⟩
    have lifted : Eval.lift ((f s.machine.stack).mapError .stack) s = .ok stack s :=
      lift_eq_ok.2 ⟨Except.mapError_eq_ok.2 changed, rfl⟩
    exact bind_ok lifted _

theorem popOperand_of_ok {f : OperandStack → Except StackFault (α × OperandStack)} {a : α}
    {stack : OperandStack} {s : Session} (popped : f s.machine.stack = .ok (a, stack)) :
    Eval.popOperand f s =
      .ok a (s.mapMachine fun machine => { machine with stack := stack }) := by
  have lifted : Eval.lift ((f s.machine.stack).mapError .stack) s = .ok (a, stack) s :=
    lift_eq_ok.2 ⟨Except.mapError_eq_ok.2 popped, rfl⟩
  exact bind_ok lifted _

theorem popOperand_of_error {f : OperandStack → Except StackFault (α × OperandStack)}
    {fault : StackFault} {s : Session} (failed : f s.machine.stack = .error fault) :
    Eval.popOperand f s = .error (.stack fault) s := by
  simp only [Eval.popOperand, bind_apply, gets_apply, andThen, failed]
  rfl

theorem popOperand_eq_ok {f : OperandStack → Except StackFault (α × OperandStack)} {a : α}
    {s t : Session} :
    Eval.popOperand f s = .ok a t ↔ ∃ stack, f s.machine.stack = .ok (a, stack) ∧
      t = s.mapMachine fun machine => { machine with stack := stack } := by
  constructor
  · intro h
    rcases bind_eq_ok.1 h with ⟨_, _, ⟨⟩, h⟩
    rcases bind_eq_ok.1 h with ⟨⟨value, stack⟩, _, lifted, ⟨⟩⟩
    rcases lift_eq_ok.1 lifted with ⟨popped, rfl⟩
    exact ⟨stack, Except.mapError_eq_ok.1 popped, rfl⟩
  · rintro ⟨stack, popped, rfl⟩
    exact popOperand_of_ok popped

/-! ## Glyphs -/

theorem fetchProgram_apply (glyphs : GlyphStore) (glyph : GlyphId) (s : Session) :
    Eval.fetchProgram glyphs glyph s =
      match glyphs.fetch glyph with
      | .ok program => .ok program (s.note (.fetched glyph))
      | .error e => .error e s := by
  simp only [Eval.fetchProgram]
  cases glyphs.fetch glyph <;> rfl

/-- A glyph that the font has is found and fetched.  If it is not found, nothing was fetched. -/
theorem locate_apply (font : Font) (glyph : GlyphId) (s : Session) :
    Eval.locate font glyph s =
      match font.locate glyph with
      | .ok located => .ok located (s.note (.fetched glyph))
      | .error e => .error e s := by
  simp only [Eval.locate, Font.locate]
  by_cases out : font.glyphs.count ≤ glyph.number
  · simp only [if_pos out]
    rfl
  · simp only [if_neg out]
    cases font.subfont glyph with
    | error fault => rfl
    | ok subfont =>
        -- nothing fails after the program is fetched
        have fetching := fetchProgram_apply font.glyphs glyph s
        cases fetched : font.glyphs.fetch glyph with
        | error e =>
            rw [fetched] at fetching
            exact bind_error fetching _
        | ok program =>
            rw [fetched] at fetching
            exact bind_ok fetching _

theorem locate_eq_ok {font : Font} {glyph : GlyphId} {located : LocatedGlyph} {s t : Session} :
    Eval.locate font glyph s = .ok located t ↔
      font.locate glyph = .ok located ∧ t = s.note (.fetched glyph) := by
  rw [locate_apply]
  cases font.locate glyph with
  | error e => simp
  | ok found => simp [eq_comm]

/-- The glyph may as well be found first and then fetched. -/
theorem withGlyph_eq (font : Font) (glyph : GlyphId) (p : LocatedGlyph → Eval α) :
    Eval.withGlyph font glyph p =
      Eval.lift (font.locate glyph) >>= fun located =>
        modify (.note (.fetched glyph)) >>= fun _ =>
          Eval.andFinally (p located) (.note (.released glyph)) := by
  funext s
  have locating := locate_apply font glyph s
  simp only [Eval.withGlyph]
  cases found : font.locate glyph with
  | error e =>
      rw [found] at locating
      exact bind_error locating _
  | ok located =>
      rw [found] at locating
      exact bind_ok locating _

/-! ## The hint hook -/

/-- A call of the hint hook is noted, and its failure ends the load or all further calls. -/
theorem callHook_apply (call : HintCall) (s : Session) :
    Eval.callHook call s =
      match s.hook with
      | none => .ok () s
      | some hook =>
          match hook.failure (call :: s.hintCalls) with
          | none => .ok () (s.note (.hinted call))
          | some (.fatal reason) => .error (.hinting (.fatal reason)) (s.note (.hinted call))
          | some (.advisory reason) =>
              .ok () { (s.note (.hinted call)).note (.hintingDisabled reason) with
                hook := none } := by
  simp only [Eval.callHook]
  apply (bind_ok (get_apply s) _).trans
  cases s.hook with
  | none => rfl
  | some hook =>
      apply (bind_ok (modify_apply _ s) _).trans
      apply (bind_ok (get_apply _) _).trans
      have calls : (s.note (.hinted call)).hintCalls = call :: s.hintCalls := rfl
      rw [calls]
      dsimp only
      cases hook.failure (call :: s.hintCalls) with
      | none => rfl
      | some failure => cases failure <;> rfl

/-- Hint calls are not in the trace. -/
theorem trace_callHook {call : HintCall} {s t : Session}
    (called : Eval.callHook call s = .ok () t) : t.trace = s.trace := by
  simp only [callHook_apply] at called
  split at called
  · cases called
    rfl
  · split at called <;> cases called <;> rfl

end Outcome

end Type2Glyphs
