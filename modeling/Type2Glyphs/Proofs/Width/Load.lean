import Type2Glyphs.Proofs.Loading
import Type2Glyphs.Proofs.Program.Replacement
import Type2Glyphs.Proofs.Width.Widening

/-!
# Load — a number in front of a program is its width

A glyph that was loaded without a width is loaded in the same way with a number in front of its
program, but that the number counts for the advance.
-/

namespace Type2Glyphs

open Outcome Session

/-! ## Sessions with another advance -/

namespace Session

/-- Sessions that are equal up to the trace, but that the second one has that advance. -/
structure Readvanced (advance : Point) (s s' : Session) : Prop where
  rest : s' = { s with
    draft := { s.draft with advance := advance }
    trace := s'.trace }

variable {advance : Point} {s s' : Session} {width : Fixed}

theorem Readvanced.note (h : Readvanced advance s s') (event : LoadEvent) :
    Readvanced advance (s.note event) (s'.note event) where
  rest := by
    simp only [Session.note]
    rw [h.rest]

theorem Readvanced.callHook (call : HintCall) :
    Simulates (fun _ => True) (Readvanced advance) (Eval.callHook call) (Eval.callHook call) := by
  refine .callHook ?_ ?_ (fun h => h.note) ?_ call
  · intro s s' related
    rw [related.rest]
  · intro s s' related _ _
    rw [related.rest]
    rfl
  · intro s s' related
    refine ⟨?_⟩
    rw [related.rest]

/-- After the program has ended, sessions are equal but for the advance. -/
theorem Settled.leave (h : Settled [] width s s') (subfont : Subfont) (depth : Nat)
    (machine : Machine) :
    Readvanced ⟨subfont.nominalWidth + width, 0⟩ (s.leave ⟨subfont, false, depth⟩ machine)
      (s'.leave ⟨subfont, false, depth⟩ machine) where
  rest := by
    simp only [Session.leave]
    rw [h.rest]
    rfl

end Session

/-! ## Programs -/

theorem lacksWidth_stop {trace : List TraceEntry}
    (awaits : ∀ entry ∈ trace, entry.awaitsWidth = true) : lacksWidth (.stop :: trace) = false :=
  lacksWidth_of_awaits (List.forall_mem_cons.2 ⟨rfl, awaits⟩)

/-- A trace that lacks a width in the end is not exempt. -/
theorem Session.Exempt.lacksWidth_eq {s : Session} (exempt : s.Exempt) :
    lacksWidth (.stop :: s.trace) = false := by
  cases exempt with
  | decided h => exact h [.stop]
  | full awaits _ => exact lacksWidth_stop awaits

section Programs

variable {font : Font} {limit levels : Nat} {frame : Frame} {number program : Bytes}
  {width : Operand} {s t : Session} {ending : Ending}

/-- A number in front of a program is pushed before it. -/
theorem Eval.evaluate_number (reads : Token.next? number = some (.ok (.operand width, [])))
    (empty : s.machine.stack = .empty) :
    evaluate font limit levels frame (number ++ program) s =
      evaluate font limit levels frame program
        (s.mapMachine fun machine => machine.above [width]) := by
  rcases Token.next?_eq_ok.1 reads with ⟨code, rest, used, rfl, read, ahead⟩
  have further : (rest ++ program).drop used = program := by
    rw [List.drop_append_of_le_length (Token.read_local read).1, ahead, List.nil_append]
  have pushed : changeStack (OperandStack.push width) s =
      .ok () (s.mapMachine fun machine => machine.above [width]) := by
    refine changeStack_eq_ok.2 ⟨⟨[width]⟩, ?_, ?_⟩
    · rw [empty]
      rfl
    · simp only [Session.mapMachine, Machine.above, empty]
      rfl
  simp only [evaluate_eq]
  refine (evaluateAfter_operand (Token.read_append read program) s).trans ?_
  rw [further]
  exact bind_ok pushed _

/-- A program that lacks a width is evaluated in the same way with a number in front of it.  It may
be replaced by the longer one in the font, if it is not fetched. -/
theorem Eval.evaluate_settled {glyph : GlyphId} {located : LocatedGlyph} {other : Bytes}
    (found : font.locate glyph = .ok located) (deep : frame.depth + levels = limit)
    (reads : Token.next? number = some (.ok (.operand width, []))) (fresh : s.machine = {})
    (awaits : ∀ entry ∈ s.trace, entry.awaitsWidth = true)
    (run : evaluate font limit levels frame program s = .ok ending t)
    (lacks : lacksWidth (.stop :: t.trace) = true) (once : t.fetches glyph = s.fetches glyph) :
    ∃ t', evaluate (font.withProgram glyph other) limit levels frame (number ++ program) s =
      .ok ending t' ∧ Settled [] width.toFixed t t' := by
  have searching : Machine.Searching {} s.trace := ⟨⟨rfl, rfl⟩, awaits, by decide⟩
  have waiting : Waiting width s (s.mapMachine fun machine => machine.above [width]) :=
    ⟨rfl, by rw [fresh]; exact searching⟩
  have pushed : evaluate font limit levels frame (number ++ program) s =
      evaluate font limit levels frame program
        (s.mapMachine fun machine => machine.above [width]) :=
    evaluate_number reads (by rw [fresh])
  have elsewhere : SameUnlessFetched glyph
      (evaluate font limit levels frame (number ++ program))
      (evaluate (font.withProgram glyph other) limit levels frame (number ++ program)) :=
    evaluate_withProgram found deep _
  -- the trace excludes all other ways in which the runs can have ended
  rcases (evaluate_widened deep program).widens (.inl waiting) ending t run with
    exempt | ⟨t', run', searching | settled⟩
  · exact absurd lacks (by rw [exempt.lacksWidth_eq]; decide)
  · exact absurd lacks (by rw [lacksWidth_stop searching.holds.awaits]; decide)
  · have plain := pushed.trans run'
    refine ⟨t', (elsewhere.same s ?_).trans plain, settled⟩
    rw [plain, ← once]
    simp only [finalSession, Session.fetches]
    rw [settled.rest]

end Programs

/-! ## Glyphs -/

section Glyphs

variable {font : Font} {limit : Nat} {glyph : GlyphId} {located : LocatedGlyph}
  {number program : Bytes} {width : Operand} {subfont : Subfont} {s u : Session}

/-- The font with another program for the glyph matters only where the glyph is fetched. -/
theorem Eval.runProgram_readvanced (other : Bytes) (found : font.locate glyph = .ok located)
    (reads : Token.next? number = some (.ok (.operand width, []))) (untraced : s.trace = [])
    (ran : runProgram (evaluate font limit limit) ⟨subfont, false, 0⟩ program s = .ok () u)
    (lacks : lacksWidth u.trace = true) (once : u.fetches glyph = s.fetches glyph) :
    u.draft.advance = ⟨subfont.defaultWidth, 0⟩ ∧
      ∃ u', runProgram (evaluate (font.withProgram glyph other) limit limit) ⟨subfont, false, 0⟩
          (number ++ program) s = .ok () u' ∧
        Readvanced ⟨subfont.nominalWidth + width.toFixed, 0⟩ u u' := by
  rcases runProgram_eq_ok.1 ran with ⟨unread, t, run, rfl⟩
  have started : ∀ entry ∈ ({ s with machine := {} }.record .start).trace,
      entry.awaitsWidth = true := by
    simp only [Session.record, untraced, List.mem_singleton]
    rintro _ rfl
    rfl
  obtain ⟨t', run', settled⟩ : ∃ t',
      evaluate (font.withProgram glyph other) limit limit ⟨subfont, false, 0⟩
        (number ++ program) ({ s with machine := {} }.record .start) =
          .ok ⟨true, unread⟩ t' ∧ Settled [] width.toFixed t t' :=
    evaluate_settled found (Nat.zero_add limit) reads rfl started run lacks once
  refine ⟨?_, _, runProgram_eq_ok.2 ⟨unread, t', run', rfl⟩, settled.leave subfont 0 s.machine⟩
  have absent : t.machine.width = none := settled.holds.2
  simp only [Session.leave, absent]
  rfl

/-- A glyph that lacks a width is drawn in the same way with a number in front of its program, but
with another advance. -/
theorem Eval.drawGlyph_readvanced (found : font.locate glyph = .ok located)
    (reads : Token.next? number = some (.ok (.operand width, []))) (untraced : s.trace = [])
    (drawn : drawGlyph font limit glyph s = .ok () u) (lacks : lacksWidth u.trace = true)
    (once : u.fetches glyph ≤ s.fetches glyph + 1) :
    u.draft.advance = ⟨located.subfont.defaultWidth, 0⟩ ∧
      ∃ u', drawGlyph (font.withProgram glyph (number ++ located.program)) limit glyph s =
          .ok () u' ∧
        Readvanced ⟨located.subfont.nominalWidth + width.toFixed, 0⟩ u u' := by
  rcases withGlyph_eq_ok.1 drawn with ⟨_, v, found', drawing, rfl⟩
  cases found.symm.trans found'
  rcases bind_eq_ok.1 drawing with ⟨⟨⟩, opened, calling, running⟩
  -- the glyph is fetched before its program is evaluated, so it is not fetched there
  have unfetched : v.fetches glyph = opened.fetches glyph := by
    have opening := Grows.final (Grows.callHook (.openGlyph glyph)) (s.note (.fetched glyph))
    have body : SameUnlessFetched glyph
        (evaluate font limit limit ⟨located.subfont, false, 0⟩ located.program)
        (evaluate font limit limit ⟨located.subfont, false, 0⟩ located.program) :=
      .of_grows ((Grows.programLaw font limit).evaluate (Nat.zero_add limit) located.program)
    have ran := (SameUnlessFetched.runProgram body).grows opened
    rw [calling] at opening
    rw [running] at ran
    refine Nat.le_antisymm ?_ (ran.fetches_le glyph)
    calc v.fetches glyph
        = (v.note (.released glyph)).fetches glyph :=
          (List.count_cons_of_ne LoadEvent.noConfusion).symm
      _ ≤ s.fetches glyph + 1 := once
      _ = (s.note (.fetched glyph)).fetches glyph := List.count_cons_self.symm
      _ ≤ opened.fetches glyph := opening.fetches_le glyph
  have opened_untraced := (trace_callHook calling).trans untraced
  obtain ⟨default, u', running', readvanced⟩ := runProgram_readvanced
    (number ++ located.program) found reads opened_untraced running lacks unfetched
  have drawing' : drawGlyph (font.withProgram glyph (number ++ located.program)) limit glyph s =
      .ok () (u'.note (.released glyph)) :=
    withGlyph_eq_ok.2
      ⟨_, u', Font.locate_withProgram found, (bind_ok calling _).trans running', rfl⟩
  exact ⟨default, _, drawing', readvanced.note _⟩

end Glyphs

/-! ## Loads -/

section Loads

variable {font : Font} {settings : LoadSettings} {glyph : GlyphId} {located : LocatedGlyph}
  {hook : Option HintHook} {number : Bytes} {width : Operand} {loaded : LoadedGlyph}
  {session : Session}

/-- In font units and without vertical layout, the advance is given with the glyph as it was set. -/
theorem LoadedGlyph.assemble_readvanced (unscaled : settings.factor = none)
    (horizontal : settings.flags.verticalLayout = false) (outline : Outline)
    (components : List Component) (bearing advance advance' : Point) (box : Option Box)
    (vertical : Fixed) :
    assemble settings outline components bearing advance' box vertical =
      { assemble settings outline components bearing advance box vertical with
        advance := advance' } := by
  simp only [assemble, unscaled, horizontal, Bool.false_eq_true, if_false]

theorem LoadedGlyph.advance_assemble (unscaled : settings.factor = none) (outline : Outline)
    (components : List Component) (bearing advance : Point) (box : Option Box)
    (vertical : Fixed) :
    (assemble settings outline components bearing advance box vertical).advance = advance := by
  simp only [assemble, unscaled]

theorem Draft.finish_readvanced (draft : Draft) (advance : Point) :
    ({ draft with advance := advance } : Draft).finish = draft.finish := by
  have closed : ({ draft with advance := advance } : Draft).closeContour =
      { draft.closeContour with advance := advance } := by
    simp only [closeContour]
    split <;> rfl
  simp only [finish, commit, closed]
  split
  · rfl
  · split <;> rfl

/-- The hint hook hears the same and leaves the same outline. -/
theorem finishGlyph_readvanced {advance : Point} {u u' : Session} {other : Bytes}
    (unscaled : settings.factor = none) (horizontal : settings.flags.verticalLayout = false)
    (related : Readvanced advance u u')
    (finished : Eval.finishGlyph font settings u = .ok loaded session) :
    loaded.advance = u.draft.advance ∧
      ∃ session', Eval.finishGlyph (font.withProgram glyph other) settings u' =
          .ok { loaded with advance := advance } session' ∧
        Readvanced advance session session' := by
  obtain ⟨called, rfl⟩ := closed_of_finishGlyph finished
  have heard := Readvanced.callHook (.close u.draft.finish.1) related
  rw [called] at heard
  obtain ⟨session', called', readvanced⟩ := heard.of_ok
  -- neither the outline nor what the hook does depends on the advance
  have outline : u'.draft.finish = u.draft.finish := by
    rw [related.rest]
    exact u.draft.finish_readvanced advance
  have hook : u'.hook = u.hook := by rw [related.rest]
  have calls : session'.hintCalls = session.hintCalls := by
    rw [readvanced.rest]
    rfl
  refine ⟨LoadedGlyph.advance_assemble unscaled .., session', ?_, readvanced⟩
  rw [finishGlyph_apply, outline, called']
  simp only [LoadedGlyph.ofOutline, hook, calls, outline]
  rw [related.rest]
  exact congrArg (EStateM.Result.ok · session')
    (LoadedGlyph.assemble_readvanced unscaled horizontal ..)

/-- A glyph that lacks a width, and is not loaded again as a component of itself, is loaded in the
same way with a number in front of its program.  Only the advance is another one: that number is
added to the nominal width of its subfont, where the default width was taken before. -/
theorem load_readvanced (unscaled : settings.factor = none)
    (horizontal : settings.flags.verticalLayout = false)
    (found : font.locate glyph = .ok located)
    (loads : font.load glyph settings hook = ⟨.ok loaded, session⟩)
    (lacks : lacksWidth session.trace = true) (once : session.fetches glyph = 1)
    (reads : Token.next? number = some (.ok (.operand width, []))) :
    loaded.advance = ⟨located.subfont.defaultWidth, 0⟩ ∧
      ∃ session', (font.withProgram glyph (number ++ located.program)).load glyph settings hook =
          ⟨.ok { loaded with advance := ⟨located.subfont.nominalWidth + width.toFixed, 0⟩ },
            session'⟩ ∧
        session'.journal = session.journal := by
  rcases load_eq_ok.1 loads with ⟨u, drawn, finished⟩
  have closed := (closed_of_finishGlyph finished).1
  have unfetched : u.fetches glyph ≤ (initial settings hook).fetches glyph + 1 := by
    have grows := Grows.final (Grows.callHook (.close u.draft.finish.1)) u
    rw [closed] at grows
    exact Nat.le_trans (grows.fetches_le glyph) (Nat.le_of_eq once)
  obtain ⟨default, u', drawn', readvanced⟩ := Eval.drawGlyph_readvanced found reads rfl drawn
    (by rwa [← trace_callHook closed]) unfetched
  obtain ⟨same, session', finished', ended⟩ :=
    finishGlyph_readvanced unscaled horizontal readvanced finished
  refine ⟨same.trans default, session', load_eq_ok.2 ⟨u', drawn', finished'⟩, ?_⟩
  rw [ended.rest]

/-- A font whose only glyph doubles an operand, declares a stem with it, and then draws a line. -/
def Font.stemmed : Font where
  glyphs := .ofList [some [149, 12, 27, 1, 159, 22, 149, 6, 14]]
  globalSubrs := .empty
  subfonts := [{ defaultWidth := .ofInt 500, nominalWidth := .ofInt 600 }]

theorem load_readvanced_stemmed :
    let plain := Font.stemmed.load ⟨0⟩ {} (some .silent)
    let wide := (Font.stemmed.withProgram ⟨0⟩
      ([255, 0, 5, 128, 0] ++ [149, 12, 27, 1, 159, 22, 149, 6, 14])).load ⟨0⟩ {} (some .silent)
    ∃ loaded, plain.result = .ok loaded ∧ loaded.advance = ⟨.ofInt 500, 0⟩ ∧
      wide.result = .ok { loaded with advance := ⟨.ofInt 600 + .ofRaw 360448, 0⟩ } ∧
      wide.session.journal = plain.session.journal := by
  intro plain wide
  obtain ⟨loaded, drawn⟩ : ∃ loaded, plain.result = .ok loaded := ok_of_isOk (by decide +kernel)
  have loads : plain = ⟨.ok loaded, plain.session⟩ := by rw [← drawn]
  have reads : Token.next? [255, 0, 5, 128, 0] =
      some (.ok (.operand (.fixed (.ofRaw 360448)), [])) := by decide +kernel
  obtain ⟨default, session', loads', journal⟩ := load_readvanced rfl rfl
    (rfl : Font.stemmed.locate ⟨0⟩ = .ok ⟨[149, 12, 27, 1, 159, 22, 149, 6, 14], _⟩) loads
    (by decide +kernel) (by decide +kernel) reads
  have wide_eq : wide = _ := loads'
  exact ⟨loaded, drawn, default, by rw [wide_eq]; rfl, by rw [wide_eq]; exact journal⟩

end Loads

end Type2Glyphs
