import Type2Glyphs.Proofs.GlyphRun
import Type2Glyphs.Proofs.Program.Run

/-!
# Truncation — programs cut short, and programs with bytes behind them

Numbers, operators of two bytes and masks can straddle a cut.  A program that is cut there wants
more bytes, and one that is cut between two tokens is not terminated.  Everything else that a
program does is done before the cut is noticed:

* `Eval.evaluateAfter_extended`: a failure stays as it is when bytes are appended, unless it was for
  want of bytes;
* `Eval.evaluate_consumed`: a program that ends its glyph has consumed a front of its bytes, and
  does the same with any bytes behind that front;
* `Eval.runProgram_truncated` puts the two together, for each cut of a whole program.
-/

namespace Type2Glyphs

open Outcome

/-! ## Appending bytes -/

namespace Token

variable {code : UInt8} {rest : Bytes} {fault : CharstringFault}

/-- A reader that finds its bytes finds them with more bytes behind them too. -/
theorem demand_extended {α : Type} {size : Nat} {reader : Bytes → Option (α × Bytes)}
    (takes : Bytes.TakesFront size reader)
    {make : α × Bytes → Except CharstringFault (Token × Nat)}
    (blind : ∀ a later more, make (a, later) = make (a, more))
    (h : (demand (reader rest) >>= make) = .error fault) (enough : fault ≠ .unexpectedEnd)
    (more : Bytes) : (demand (reader (rest ++ more)) >>= make) = .error fault := by
  cases read : reader rest with
  | none =>
      rw [read] at h
      cases h
      exact absurd rfl enough
  | some pair =>
      rcases pair with ⟨a, later⟩
      rw [read] at h
      have made : make (a, later) = .error fault := h
      have behind : rest ++ more = rest.take size ++ (rest.drop size ++ more) := by
        rw [← List.append_assoc, List.take_append_drop]
      rw [behind, (takes read).2 (rest.drop size ++ more)]
      exact (blind a _ later).trans made

/-- A token that cannot be read is no better with more bytes behind it, unless it wants bytes. -/
theorem read_extended (h : read code rest = .error fault) (enough : fault ≠ .unexpectedEnd)
    (more : Bytes) : read code (rest ++ more) = .error fault := by
  -- the branches of the definition, by the first byte
  by_cases short : code = shortByte
  · simp only [read, if_pos short] at h ⊢
    exact demand_extended (Bytes.takesFront_int? 2) (fun _ _ _ => rfl) h enough more
  by_cases fixed : code = fixedByte
  · simp only [read, if_neg short, if_pos fixed] at h ⊢
    exact demand_extended (Bytes.takesFront_int? 4) (fun _ _ _ => rfl) h enough more
  by_cases negative : 251 ≤ code
  · simp only [read, if_neg short, if_neg fixed, if_pos negative] at h ⊢
    exact demand_extended (Bytes.takesFront_uint? 1) (fun _ _ _ => rfl) h enough more
  by_cases positive : 247 ≤ code
  · simp only [read, if_neg short, if_neg fixed, if_neg negative, if_pos positive] at h ⊢
    exact demand_extended (Bytes.takesFront_uint? 1) (fun _ _ _ => rfl) h enough more
  by_cases single : 32 ≤ code
  · simp only [read, if_neg short, if_neg fixed, if_neg negative, if_neg positive,
      if_pos single] at h
    cases h
  by_cases escape : code = Operator.escapeByte
  · simp only [read, if_neg short, if_neg fixed, if_neg negative, if_neg positive, if_neg single,
      if_pos escape] at h ⊢
    exact demand_extended (Bytes.takesFront_uint? 1) (fun _ _ _ => rfl) h enough more
  · -- one byte alone says which operator this is
    simp only [read, if_neg short, if_neg fixed, if_neg negative, if_neg positive, if_neg single,
      if_neg escape] at h ⊢
    exact h

end Token

namespace Eval

variable {font : Font} {limit : Nat} {nested : Option Evaluator} {frame : Frame} {op : Operator}
  {e : LoadError} {s t : Session}

theorem readMask_extended {op : MaskOp} {unread : Bytes} (h : readMask op unread s = .error e t)
    (enough : e ≠ .charstring .unexpectedEnd) (more : Bytes) :
    readMask op (unread ++ more) s = .error e t := by
  have reading : ∀ bytes, readMask op bytes s = _ := fun bytes => bind_ok (gets_apply s) _
  rw [reading] at h ⊢
  cases split : unread.split? ((s.machine.stemCount + 7) / 8) with
  | none =>
      simp only [split] at h
      cases h
      exact absurd rfl enough
  | some pair =>
      rcases pair with ⟨bits, later⟩
      rcases Bytes.split?_eq_some_iff.1 split with ⟨full, rfl⟩
      have further : (bits ++ later ++ more).split? ((s.machine.stemCount + 7) / 8) =
          some (bits, later ++ more) :=
        Bytes.split?_eq_some_iff.2 ⟨full, List.append_assoc bits later more⟩
      simp only [split] at h
      simp only [further]
      exact h

theorem mask_extended {op : MaskOp} {unread : Bytes} (h : mask op unread s = .error e t)
    (enough : e ≠ .charstring .unexpectedEnd) (more : Bytes) :
    mask op (unread ++ more) s = .error e t := by
  rcases bind_eq_error.1 h with failed | ⟨values, s', taken, rest⟩
  · exact bind_error failed _
  refine bind_eq_error.2 (.inr ⟨values, s', taken, ?_⟩)
  by_cases stems : values ≠ []
  · simp only [if_pos stems] at rest ⊢
    rcases bind_eq_error.1 rest with failed | ⟨_, s'', declared, reading⟩
    · exact bind_error failed _
    · exact bind_eq_error.2 (.inr ⟨(), s'', declared, readMask_extended reading enough more⟩)
  · simp only [if_neg stems] at rest ⊢
    exact readMask_extended rest enough more

/-- An operator that fails does the same with more bytes ahead, unless it wants bytes. -/
theorem execute_extended {unread : Bytes}
    (h : execute font limit nested frame op unread s = .error e t)
    (enough : e ≠ .charstring .unexpectedEnd) (more : Bytes) :
    execute font limit nested frame op (unread ++ more) s = .error e t := by
  by_cases masked : ∃ mask, op = .mask mask
  · rcases masked with ⟨op, rfl⟩
    rcases bind_eq_error.1 h with failed | ⟨size, t', _, impossible⟩
    · exact bind_error (mask_extended failed enough more) _
    · cases impossible
  · have unmasked : ∀ mask, op ≠ .mask mask := fun mask same => masked ⟨mask, same⟩
    rw [execute_of_unmasked unmasked _ unread]
    exact h

/-- A program that fails does the same with more bytes behind it, unless it wants bytes. -/
theorem evaluateAfter_extended {skip : Nat} {program : Bytes} (within : skip ≤ program.length)
    (h : evaluateAfter (execute font limit nested frame) frame.depth skip program s = .error e t)
    (enough : e ≠ .charstring .unexpectedEnd) (more : Bytes) :
    evaluateAfter (execute font limit nested frame) frame.depth skip (program ++ more) s =
      .error e t := by
  -- by induction on the bytes; those that a token or a mask takes are within the program
  induction program generalizing skip s with
  | nil =>
      simp only [evaluateAfter] at h
      cases h
  | cons code rest ih =>
      cases skip with
      | succ skip => exact ih (Nat.le_of_succ_le_succ within) h
      | zero =>
          cases read : Token.read code rest with
          | error fault =>
              have unreadable : ∀ {bytes}, Token.read code bytes = .error fault →
                  evaluateAfter (execute font limit nested frame) frame.depth 0 (code :: bytes) s =
                    .error (.charstring fault) s := by
                intro bytes unread
                simp only [evaluateAfter, unread]
                rfl
              cases (unreadable read).symm.trans h
              exact unreadable (Token.read_extended read (fun same => enough (by rw [same])) more)
          | ok pair =>
              rcases pair with ⟨token, used⟩
              have long : used ≤ rest.length := (Token.read_local read).1
              have reread := Token.read_append read more
              cases token with
              | operand value =>
                  have failing := (evaluateAfter_operand read s).symm.trans h
                  apply (evaluateAfter_operand reread s).trans
                  rcases bind_eq_error.1 failing with full | ⟨_, s₁, pushed, later⟩
                  · exact bind_error full _
                  refine bind_eq_error.2 (.inr ⟨(), s₁, pushed, ?_⟩)
                  rw [← evaluateAfter_drop] at later ⊢
                  exact ih long later
              | operator op =>
                  have failing := (evaluateAfter_operator read s).symm.trans h
                  apply (evaluateAfter_operator reread s).trans
                  have ahead : (rest ++ more).drop used = rest.drop used ++ more :=
                    List.drop_append_of_le_length long
                  rcases bind_eq_error.1 failing with failed | ⟨flow, s₁, executed, later⟩
                  · rw [ahead]
                    exact bind_error (execute_extended failed enough more) _
                  refine bind_eq_error.2 (.inr ⟨flow, s₁, ?_, ?_⟩)
                  · rw [ahead]
                    exact execute_append executed more
                  cases flow with
                  | stop endsGlyph => cases later
                  | proceed skip =>
                      have room : skip ≤ rest.length - used := by
                        have room := (execute_local executed).1
                        rwa [List.length_drop] at room
                      have skipped : used + skip ≤ rest.length := by omega
                      rw [follow_proceed] at later ⊢
                      exact ih skipped later

/-! ## What has been consumed -/

variable {levels : Nat} {program unread : Bytes}

theorem replays_self (font : Font) (limit : Nat) (nested : Option Evaluator) (frame : Frame) :
    Replays Eq (execute font limit nested frame) (execute font limit nested frame) frame.depth
      frame.depth where
  push := by
    rintro value s _ t rfl pushed
    exact ⟨t, rfl, pushed⟩
  execute := by
    rintro op unread flow s _ t rfl executed
    rcases execute_local executed with ⟨within, elsewhere⟩
    exact ⟨within, fun more => ⟨t, rfl, elsewhere more⟩⟩

/-- A program that ends its glyph has consumed a front of its bytes, and what follows that front
does not matter. -/
theorem evaluate_consumed (h : evaluate font limit levels frame program s = .ok ⟨true, unread⟩ t) :
    ∃ front, program = front ++ unread ∧ ∀ more,
      evaluate font limit levels frame (front ++ more) s = .ok ⟨true, more⟩ t := by
  have ran := h
  rw [evaluate_eq] at ran
  rcases Run.of_evaluateAfter ran with ⟨front, run⟩
  have elsewhere : ∀ more,
      evaluate font limit levels frame (front ++ more) s = .ok ⟨true, more⟩ t := by
    intro more
    have returns : true = false → ∀ {s s' : Session}, s = s' →
        s.record (.operator frame.depth .ret s.machine.stack) = s' := by
      intro impossible
      cases impossible
    rcases run.replayed (replays_self font limit _ frame) returns rfl more with ⟨_, rfl, replayed⟩
    rw [evaluate_eq]
    exact replayed
  rcases run.front_append with ⟨later, rfl⟩
  -- the program itself is one of those with the front, so its rest is what is unread
  cases (elsewhere later).symm.trans h
  exact ⟨front, rfl, elsewhere⟩

/-! ## Whole programs -/

/-- A program breaks off: it is not terminated, or it wants more bytes. -/
def BreaksOff (outcome : EStateM.Result LoadError Session Unit) : Prop :=
  ∃ t, outcome = .error (.charstring .unterminated) t ∨
    outcome = .error (.charstring .unexpectedEnd) t

/-- A program that does not break off comes to the same with more bytes behind it. -/
theorem runProgram_extended
    (whole : ¬ BreaksOff (runProgram (evaluate font limit levels) frame program s))
    (more : Bytes) :
    runProgram (evaluate font limit levels) frame (program ++ more) s =
      runProgram (evaluate font limit levels) frame program s := by
  simp only [runProgram_apply] at whole ⊢
  cases run : evaluate font limit levels frame program ({ s with machine := {} }.record .start) with
  | error e t =>
      rw [run] at whole
      have enough : e ≠ .charstring .unexpectedEnd := by
        rintro rfl
        exact whole ⟨_, .inr rfl⟩
      rw [evaluate_eq] at run ⊢
      have extended := evaluateAfter_extended (Nat.zero_le _) run enough more
      simp only [evaluateWith, extended]
  | ok ending t =>
      rcases ending with ⟨endsGlyph, unread⟩
      cases endsGlyph with
      | false =>
          rw [run] at whole
          exact absurd ⟨_, .inl rfl⟩ whole
      | true =>
          rcases evaluate_consumed run with ⟨front, rfl, elsewhere⟩
          rw [List.append_assoc, elsewhere]

/-- A program that is cut anywhere comes to the same as the whole one, or it breaks off.  If the
whole program succeeds, it has consumed a number of bytes: with fewer of them it breaks off, and
with exactly these it succeeds alike, whatever bytes follow. -/
theorem runProgram_truncated (font : Font) (limit levels : Nat) (frame : Frame) (program : Bytes)
    (s : Session) :
    (∀ m, runProgram (evaluate font limit levels) frame (program.take m) s =
          runProgram (evaluate font limit levels) frame program s ∨
        BreaksOff (runProgram (evaluate font limit levels) frame (program.take m) s)) ∧
    ∀ t, runProgram (evaluate font limit levels) frame program s = .ok () t →
      ∃ n u, n ≤ program.length ∧
        evaluate font limit levels frame program ({ s with machine := {} }.record .start) =
          .ok ⟨true, program.drop n⟩ u ∧
        (∀ m, m < n →
          BreaksOff (runProgram (evaluate font limit levels) frame (program.take m) s)) ∧
        ∀ more, runProgram (evaluate font limit levels) frame (program.take n ++ more) s =
          .ok () t := by
  have cut : ∀ m, runProgram (evaluate font limit levels) frame (program.take m) s =
        runProgram (evaluate font limit levels) frame program s ∨
      BreaksOff (runProgram (evaluate font limit levels) frame (program.take m) s) := by
    intro m
    by_cases off : BreaksOff (runProgram (evaluate font limit levels) frame (program.take m) s)
    · exact .inr off
    · have extended := runProgram_extended off (program.drop m)
      rw [List.take_append_drop] at extended
      exact .inl extended.symm
  refine ⟨cut, ?_⟩
  intro t success
  rcases runProgram_eq_ok.1 success with ⟨unread, u, run, rfl⟩
  rcases evaluate_consumed run with ⟨front, whole, elsewhere⟩
  have drop : program.drop front.length = unread := by rw [whole, List.drop_left]
  have take : program.take front.length = front := by rw [whole, List.take_left]
  have count : program.length = front.length + unread.length := by rw [whole, List.length_append]
  refine ⟨front.length, u, by omega, by rw [drop]; exact run, ?_, ?_⟩
  · intro m short
    refine (cut m).resolve_left ?_
    intro same
    -- a success of the cut program would have left more bytes unread than the whole one did
    rcases runProgram_eq_ok.1 (same.trans success) with ⟨unread', u', run', _⟩
    rcases evaluate_consumed run' with ⟨front', whole', elsewhere'⟩
    have again : program = front' ++ (unread' ++ program.drop m) := by
      rw [← List.append_assoc, ← whole', List.take_append_drop]
    have left : unread = unread' ++ program.drop m := by
      have rerun := elsewhere' (unread' ++ program.drop m)
      rw [← again, run] at rerun
      cases rerun
      rfl
    have lengths := congrArg List.length left
    rw [List.length_append, List.length_drop] at lengths
    omega
  · intro more
    rw [take]
    exact runProgram_eq_ok.2 ⟨more, u, elsewhere more, rfl⟩

/-- A font whose only subroutine ends the glyph. -/
def endingFont : Font where
  glyphs := .ofList []
  globalSubrs := ⟨1, 1, [1, 2], [14]⟩
  subfonts := [{}]

/-- Two stems, their mask and a call, and two bytes that are never read. -/
def endingProgram : Bytes :=
  [139, 149, 18, 139, 149, 19, 192, 32, 29] ++ [19, 28]

theorem runProgram_truncated_ending :
    ∃ t, runProgram (evaluate endingFont 1 1) ⟨{}, false, 0⟩ endingProgram {} = .ok () t ∧
      (∀ m, m < 9 → BreaksOff
        (runProgram (evaluate endingFont 1 1) ⟨{}, false, 0⟩ (endingProgram.take m) {})) ∧
      ∀ more, runProgram (evaluate endingFont 1 1) ⟨{}, false, 0⟩
        (endingProgram.take 9 ++ more) {} = .ok () t := by
  have left : (match evaluate endingFont 1 1 ⟨{}, false, 0⟩ endingProgram
      (Session.record .start {}) with
      | .ok ending _ => some ending
      | .error _ _ => none) = some ⟨true, [19, 28]⟩ := by decide +kernel
  cases run : evaluate endingFont 1 1 ⟨{}, false, 0⟩ endingProgram (Session.record .start {}) with
  | error e u =>
      rw [run] at left
      cases left
  | ok ending u =>
      rw [run] at left
      cases left
      have success : runProgram (evaluate endingFont 1 1) ⟨{}, false, 0⟩ endingProgram {} = _ :=
        runProgram_eq_ok.2 ⟨_, u, run, rfl⟩
      rcases (runProgram_truncated endingFont 1 1 ⟨{}, false, 0⟩ endingProgram {}).2 _ success with
        ⟨n, u', within, consumed, short, long⟩
      have nine : n = 9 := by
        have unread : [19, 28] = endingProgram.drop n := by
          injection run.symm.trans consumed with ending _
          exact congrArg Ending.unread ending
        have lengths := congrArg List.length unread
        have total : endingProgram.length = 11 := rfl
        simp only [List.length_drop, List.length_cons, List.length_nil] at lengths
        omega
      subst nine
      exact ⟨_, success, short, long⟩

end Eval

end Type2Glyphs
