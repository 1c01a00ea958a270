import Type2Glyphs.Proofs.Components
import Type2Glyphs.Proofs.Forks

/-!
# Accent — accented glyphs are put together from loads of their parts

The load that lists components gives the part of an accented glyph that its own program draws.  The
full load adds a base and a mark to it, and they are what loads of the two on their own give: with
the levels that are left where the glyph is composed, and the random numbers that are next there.
-/

namespace Type2Glyphs

/-- The settings for a load that lists components. -/
def LoadSettings.listing (settings : LoadSettings) : LoadSettings :=
  { settings with flags := { settings.flags with noRecurse := true } }

/-! ## Glyphs of sessions that differ in listing -/

theorem Draft.finish_listing (draft : Draft) (lists : Bool) :
    { draft with listsComponents := lists }.finish = draft.finish := by
  have closed : { draft with listsComponents := lists }.closeContour =
      { draft.closeContour with listsComponents := lists } := by
    cases isOpen : draft.isOpen <;> simp [closeContour, isOpen]
  simp only [finish, commit]
  rw [closed]
  dsimp only
  split
  · rfl
  · split <;> rfl

/-- A glyph that is not accented is the same in both loads. -/
theorem ofSession_listing {t t' : Session} (related : Session.Listing t t') (font : Font)
    (settings : LoadSettings) (subfont : Subfont) (glyph : GlyphId) :
    LoadedGlyph.ofSession font settings.listing (t'.ended subfont glyph) =
      LoadedGlyph.ofSession font settings.drawing (t.ended subfont glyph) := by
  have components : t'.components = t.components := by
    simp only [related.components.1, related.components.2]
  have draft : (t'.ended subfont glyph).draft =
      { (t.ended subfont glyph).draft with listsComponents := true } := by
    simp only [Session.ended, Session.leave, Session.note, Session.record, Session.mapDraft_eq,
      related.machine, related.draft.same]
    rfl
  simp only [LoadedGlyph.ofSession]
  rw [draft, Draft.finish_listing]
  dsimp only [Session.ended, Session.leave, Session.note, Session.record, Session.mapDraft_eq]
  rw [components]
  rfl

theorem Session.Listing.started (settings : LoadSettings)
    (keepsPoints : settings.flags.metricsOnly = false) (glyph : GlyphId) :
    Session.Listing (.started settings.drawing glyph) (.started settings.listing glyph) := by
  have shown := Draft.shows_initial settings.drawing none keepsPoints
  exact Alike.of_unhooked rfl ⟨rfl, rfl, rfl, .blank, { shown with }⟩ rfl ⟨rfl, rfl⟩
    (Session.hook_initial settings.drawing) (Session.hook_initial settings.listing)

/-! ## Accented glyphs -/

section Parted

variable {font : Font} {settings : LoadSettings} {depth levels : Nat} {base mark : GlyphId}
  {offset : Point} {c c' u : Session}

/-- Where the components are drawn in full, the glyph is the listed one, the base and the mark. -/
theorem composed_of_drawn (subfont : Subfont) (glyph : GlyphId) (unscaled : settings.factor = none)
    (keepsPoints : settings.flags.metricsOnly = false) (related : Session.Listing c c')
    (drawn : Eval.drawComponents font settings.depthLimit
      (Eval.below font settings.depthLimit levels) depth [⟨base, 0⟩, ⟨mark, offset⟩] c = .ok () u)
    (deep : depth + levels = settings.depthLimit) :
    let n := LoadedGlyph.ofSession font settings.listing
      ((c'.listed [⟨base, 0⟩, ⟨mark, offset⟩]).ended subfont glyph)
    let f := LoadedGlyph.ofSession font settings.drawing
      ({ u with machine := { u.machine with stack := .empty } }.ended subfont glyph)
    u.hook = none ∧ depth < settings.depthLimit ∧ f.components = [] ∧ f.advance = n.advance ∧
      f.box = f.outline.controlBox ∧
      ∃ b a session session',
        font.load base (settings.alone (settings.depthLimit - depth - 1) c'.random) none =
          ⟨.ok b, session⟩ ∧
        font.load mark (settings.alone (settings.depthLimit - depth - 1) session.random) none =
          ⟨.ok a, session'⟩ ∧
        u.random = session'.random ∧
        f.outline = (n.outline.append b.outline).append (a.outline.shift offset) := by
  intro n f
  rcases related.draft.shown with ⟨sketch, shown⟩
  obtain ⟨lower, b, session, a, session', loops, loops', rfl, load, load', outline, outline',
    holds, random, machine⟩ := drawComponents_alone shown related.draft.origin related.draft.draws
      related.components.1 related.noHook unscaled keepsPoints drawn
  -- what is left below the composing operator is left to both components
  have levels : lower = settings.depthLimit - depth - 1 := by omega
  have listedShown : ((c'.listed [⟨base, 0⟩, ⟨mark, offset⟩]).ended subfont
      glyph).draft.Shows sketch := by
    have same := related.draft.same
    have listed : c'.draft.Shows sketch := by
      rw [same]
      exact { shown with }
    exact { listed with }
  have fullShown : ({ u with machine := { u.machine with stack := .empty } }.ended
      subfont glyph).draft.Shows
        ⟨sketch.loops ++ loops ++ loops'.map (Loop.map (· + offset)), [], none⟩ :=
    { holds.shown with }
  obtain ⟨nOutline, _, nAdvance, _⟩ :
      n.outline = _ ∧ n.box = _ ∧ n.advance = _ ∧ n.components = _ :=
    LoadedGlyph.ofSession_of_unscaled font unscaled _
  obtain ⟨fOutline, fBox, fAdvance, fComponents⟩ :
      f.outline = _ ∧ f.box = _ ∧ f.advance = _ ∧ f.components = _ :=
    LoadedGlyph.ofSession_of_unscaled font unscaled _
  -- the full draft holds the loops of the listing, of the base, and of the mark at its place
  have all : (⟨sketch.loops ++ loops ++ loops'.map (Loop.map (· + offset)), [], none⟩ :
      Sketch).loops = sketch.loops ++ loops ++ loops'.map (Loop.map (· + offset)) :=
    List.append_nil _
  have shifted : Outline.ofLoops (loops'.map (Loop.map (· + offset))) =
      a.outline.shift offset := by
    rw [Outline.ofLoops_map, outline']
    rfl
  rw [fullShown.finish, all] at fOutline
  rw [fullShown.finish_box, all] at fBox
  simp only [listedShown.finish] at nOutline
  refine ⟨holds.unhooked, by omega, fComponents.trans holds.components, ?_, ?_, b, a, session,
    session', ?_, ?_, random, ?_⟩
  · rw [fAdvance, nAdvance]
    show (⟨subfont.advance u.machine.width, 0⟩ : Point) =
      ⟨subfont.advance c'.machine.width, 0⟩
    rw [machine, related.machine]
  · rw [fBox, fOutline]
  · rw [← levels, related.random]
    exact load
  · rw [← levels]
    exact load'
  · rw [fOutline, nOutline, Outline.ofLoops_append, Outline.ofLoops_append, outline, shifted]

end Parted

/-! ## Outcomes of the two loads -/

section Outcomes

variable {font : Font} {settings : LoadSettings} {glyph : GlyphId} {located : LocatedGlyph}

theorem both_fail {listed full : LoadReport} {e : LoadError} {P : LoadedGlyph → Prop}
    (h : listed.result = .error e) (h' : full.result = .error e) :
    (∀ e, listed.result = .error e → full.result = .error e) ∧
      ∀ n, listed.result = .ok n → P n := by
  rw [h, h']
  constructor
  · exact fun _ same => same
  · intro n impossible
    cases impossible

/-- Where the evaluations agree, both loads fail with one error, or both give a glyph that is not
accented. -/
theorem both_of_agree {P : LoadedGlyph → Prop} (found : font.locate glyph = .ok located)
    (agree : Agree (fun _ => False) Session.Listing
      (located.evaluated font settings.drawing glyph)
      (located.evaluated font settings.listing glyph)) :
    let listed := font.load glyph settings.listing none
    let full := font.load glyph settings.drawing none
    (∀ e, listed.result = .error e → full.result = .error e) ∧
      ∀ n, listed.result = .ok n → (n.components = [] ∧ full.result = .ok n) ∨ P n := by
  intro listed full
  generalize fullRun : located.evaluated font settings.drawing glyph = result at agree
  generalize listedRun : located.evaluated font settings.listing glyph = result' at agree
  cases agree with
  | excuse impossible => exact impossible.elim
  | @error e t t' related =>
      have listedFails : listed.result = .error e := load_of_stuck found (.inl listedRun)
      have fullFails : full.result = .error e := load_of_stuck found (.inl fullRun)
      exact both_fail listedFails fullFails
  | @ok ending t t' related =>
      rcases ending with ⟨_ | _, unread⟩
      · -- neither program has ended the glyph
        have listedFails : listed.result = .error (.charstring .unterminated) :=
          load_of_stuck found (.inr ⟨unread, rfl, listedRun⟩)
        have fullFails : full.result = .error (.charstring .unterminated) :=
          load_of_stuck found (.inr ⟨unread, rfl, fullRun⟩)
        exact both_fail listedFails fullFails
      · have listedLoad : listed = _ :=
          load_of_ended found listedRun (related.hook.trans related.noHook)
        have fullLoad : full = _ := load_of_ended found fullRun related.noHook
        rw [listedLoad, fullLoad]
        constructor
        · intro e impossible
          cases impossible
        · intro n h
          cases h
          have same := ofSession_listing related font settings located.subfont glyph
          exact .inl ⟨related.components.2, congrArg Except.ok same.symm⟩

/-- A full load that succeeds has drawn all components. -/
theorem drawn_of_parted {ending : Ending} {drawn : EStateM.Result LoadError Session Unit}
    {f : LoadedGlyph} (found : font.locate glyph = .ok located)
    (run : located.evaluated font settings.drawing glyph = resume ending drawn)
    (loaded : (font.load glyph settings.drawing none).result = .ok f) :
    ∃ u, drawn = .ok () u := by
  cases drawn with
  | ok _ u => exact ⟨u, rfl⟩
  | error e t =>
      have fails : (font.load glyph settings.drawing none).result = .error e :=
        load_of_stuck found (.inl run)
      rw [fails] at loaded
      cases loaded

end Outcomes

/-- What the load that lists components gives determines what the full load gives.  Where there are
components, the random numbers of the base are those with which the listing ends, and those of the
mark go on from the base.  Both have as many levels as are left below the operator that is the last
one in the trace of the listing. -/
theorem load_composed (font : Font) (glyph : GlyphId) {settings : LoadSettings}
    (unscaled : settings.factor = none) (keepsPoints : settings.flags.metricsOnly = false) :
    let listed := font.load glyph settings.listing none
    let full := font.load glyph settings.drawing none
    (∀ e, listed.result = .error e → full.result = .error e) ∧
      ∀ n, listed.result = .ok n →
        (n.components = [] ∧ full.result = .ok n) ∨
          ∃ base mark offset, n.components = [⟨base, 0⟩, ⟨mark, offset⟩] ∧
            ∀ f, full.result = .ok f →
              f.components = [] ∧ f.advance = n.advance ∧ f.box = f.outline.controlBox ∧
                ∃ depth op stack earlier b a session session',
                  depth < settings.depthLimit ∧ (op = .endchar ∨ op = .seac) ∧
                  listed.session.trace = .stop :: .operator depth op stack :: earlier ∧
                  font.load base (settings.alone (settings.depthLimit - depth - 1)
                    listed.session.random) none = ⟨.ok b, session⟩ ∧
                  font.load mark (settings.alone (settings.depthLimit - depth - 1)
                    session.random) none = ⟨.ok a, session'⟩ ∧
                  full.session.random = session'.random ∧
                  f.outline = (n.outline.append b.outline).append (a.outline.shift offset) := by
  intro listed full
  cases found : font.locate glyph with
  | error e =>
      have listedFails : listed.result = .error e :=
        congrArg LoadReport.result (load_of_unlocated found)
      have fullFails : full.result = .error e :=
        congrArg LoadReport.result (load_of_unlocated found)
      exact both_fail listedFails fullFails
  | ok located =>
      have start := Session.Listing.started settings keepsPoints glyph
      have deep : (⟨located.subfont, false, 0⟩ : Frame).depth + settings.depthLimit =
          settings.depthLimit := Nat.zero_add _
      have forks : Eval.EvaluatorForks font settings.depthLimit _ _ := Eval.forks_evaluate deep
      have outcomes : Forks font settings.depthLimit _
          (located.evaluated font settings.drawing glyph)
          (located.evaluated font settings.listing glyph) := forks located.program start
      generalize fullRun : located.evaluated font settings.drawing glyph = result at outcomes
      generalize listedRun : located.evaluated font settings.listing glyph = result' at outcomes
      cases outcomes with
      | same agree =>
          rw [← fullRun, ← listedRun] at agree
          exact both_of_agree found agree
      | @parted ending c c' depth levels base mark offset ended related composing deep =>
          -- the glyph has been ended where the runs part, so both loads end here
          rcases ending with ⟨_ | _, unread⟩
          · cases ended
          have listedLoad : listed = _ :=
            load_of_ended found listedRun (related.hook.trans related.noHook)
          rw [listedLoad]
          constructor
          · intro e impossible
            cases impossible
          intro n h
          cases h
          have components : c'.components ++ [⟨base, 0⟩, ⟨mark, offset⟩] =
              [⟨base, 0⟩, ⟨mark, offset⟩] := by
            simp only [related.components.2]
            rfl
          refine .inr ⟨base, mark, offset, components, ?_⟩
          intro f loaded
          rcases drawn_of_parted found fullRun loaded with ⟨u, drawn⟩
          rw [drawn] at fullRun
          obtain ⟨unhooked, above, components, advance, box, b, a, session, session', load, load',
            random, outline⟩ :=
            composed_of_drawn located.subfont glyph unscaled keepsPoints related drawn deep
          have fullLoad : full = _ := load_of_ended found fullRun unhooked
          rw [fullLoad] at loaded ⊢
          cases loaded
          rcases composing with ⟨op, stack, earlier, composes, trace⟩
          exact ⟨components, advance, box, depth, op, stack, earlier, b, a, session, session',
            above, composes, congrArg _ trace, load, load', random, outline⟩

theorem load_composed_accented :
    ∃ n f b a offset levels seed seed', n.components = [⟨⟨1⟩, 0⟩, ⟨⟨2⟩, offset⟩] ∧
      (Font.accented.load ⟨0⟩ (LoadSettings.listing {}) none).result = .ok n ∧
      (Font.accented.load ⟨0⟩ (LoadSettings.drawing {}) none).result = .ok f ∧
      (Font.accented.load ⟨1⟩ (LoadSettings.alone levels seed {}) none).result = .ok b ∧
      (Font.accented.load ⟨2⟩ (LoadSettings.alone levels seed' {}) none).result = .ok a ∧
      f.outline = (n.outline.append b.outline).append (a.outline.shift offset) := by
  have components : (Font.accented.load ⟨0⟩ (LoadSettings.listing {}) none).result.toOption.map
      (fun n => n.components.map Component.glyph) = some [⟨1⟩, ⟨2⟩] := by decide +kernel
  have ends : (Font.accented.load ⟨0⟩ (LoadSettings.drawing {}) none).result.toOption.map
      (fun f => f.outline.ends) = some #[3, 5] := by decide +kernel
  cases listed : (Font.accented.load ⟨0⟩ (LoadSettings.listing {}) none).result with
  | error e =>
      rw [listed] at components
      cases components
  | ok n =>
      cases full : (Font.accented.load ⟨0⟩ (LoadSettings.drawing {}) none).result with
      | error e =>
          rw [full] at ends
          cases ends
      | ok f =>
          rw [listed] at components
          have glyphs : n.components.map Component.glyph = [⟨1⟩, ⟨2⟩] := Option.some.inj components
          rcases (load_composed Font.accented ⟨0⟩ (rfl : LoadSettings.factor {} = none) rfl).2 n
            listed with ⟨nothing, _⟩ | ⟨base, mark, offset, pair, composed⟩
          · rw [nothing] at glyphs
            cases glyphs
          · obtain ⟨_, _, _, depth, _, _, _, b, a, session, session', _, _, _, load, load', _,
              outline⟩ := composed f full
            rw [pair] at glyphs
            cases glyphs
            have base := congrArg LoadReport.result load
            have mark := congrArg LoadReport.result load'
            exact ⟨n, f, b, a, offset, _, _, _, pair, rfl, rfl, base, mark, outline⟩

end Type2Glyphs
