import Type2Glyphs.Proofs.Law.Growth
import Type2Glyphs.Proofs.Law.Pair

/-!
# Replacement — another program for one glyph

A font with another program for one glyph is the same font for everything that does not fetch this
glyph.  So two evaluations, one in each font, do the same until the glyph is fetched.

* `Font.withProgram` is the font with another program for a glyph;
* `SameUnlessFetched` relates programs that do the same as long as a glyph is not fetched, and
  `Eval.evaluate_withProgram` says so for all evaluations.
-/

namespace Type2Glyphs

open Outcome

/-! ## Fonts -/

namespace Font

/-- The font with another program for a glyph. -/
def withProgram (glyph : GlyphId) (program : Bytes) (font : Font) : Font :=
  { font with
    glyphs :=
      { font.glyphs with
        fetch := fun other => if other = glyph then .ok program else font.glyphs.fetch other } }

variable {font : Font} {glyph other : GlyphId} {program : Bytes} {located : LocatedGlyph}

/-- The glyph is found in the font, and the other program with it. -/
theorem locate_withProgram (found : font.locate glyph = .ok located) :
    (font.withProgram glyph program).locate glyph = .ok { located with program := program } := by
  have subfonts : (font.withProgram glyph program).subfont glyph = font.subfont glyph := rfl
  simp only [locate] at found ⊢
  rw [subfonts]
  by_cases missing : font.glyphs.count ≤ glyph.number
  · rw [if_pos missing] at found
    cases found
  · rw [if_neg missing] at found
    rw [if_neg (by exact missing)]
    revert found
    cases font.subfont glyph with
    | error e =>
        intro found
        cases found
    | ok subfont =>
        intro found
        cases fetched : font.glyphs.fetch glyph with
        | error e =>
            rw [fetched] at found
            cases found
        | ok program =>
            rw [fetched] at found
            cases found
            simp only [withProgram, if_true]
            rfl

theorem locate_withProgram_of_ne (different : other ≠ glyph) :
    (font.withProgram glyph program).locate other = font.locate other := by
  simp only [locate, withProgram, if_neg different]
  rfl

end Font

/-! ## Programs that do the same -/

/-- How often a glyph was fetched. -/
def Session.fetches (glyph : GlyphId) (session : Session) : Nat :=
  session.journal.count (.fetched glyph)

theorem Session.Grows.fetches_le {s t : Session} (grows : s.Grows t) (glyph : GlyphId) :
    s.fetches glyph ≤ t.fetches glyph :=
  grows.journal.sublist.count_le _

/-- The first program only adds to the records, and the second one does the same if that does not
fetch the glyph. -/
structure SameUnlessFetched (glyph : GlyphId) {α : Type} (p q : Eval α) : Prop where
  grows : ∀ s : Session, s.Grows (finalSession (p s))
  same : ∀ s : Session, (finalSession (p s)).fetches glyph = s.fetches glyph → q s = p s

namespace SameUnlessFetched

open Session

variable {glyph : GlyphId} {α β : Type} {p q : Eval α} {k l : α → Eval β}

theorem of_grows (grows : Effects Grows Grows p) : SameUnlessFetched glyph p p :=
  ⟨Grows.final grows, fun _ _ => rfl⟩

theorem pure (a : α) : SameUnlessFetched glyph (Pure.pure a) (Pure.pure a) :=
  of_grows fun s => .ok (.refl s)

theorem throw (e : LoadError) :
    SameUnlessFetched glyph (throw e : Eval α) (MonadExcept.throw e) :=
  of_grows fun s => .error (.refl s)

theorem lift (result : Except LoadError α) :
    SameUnlessFetched glyph (Eval.lift result) (Eval.lift result) := by
  cases result with
  | ok a => exact pure a
  | error e => exact throw e

theorem change {f : Session → Session} (grows : ∀ s : Session, s.Grows (f s)) :
    SameUnlessFetched glyph (modify f : Eval Unit) (modify f) :=
  of_grows (.change grows)

/-- What is not fetched by two programs is fetched by neither of them. -/
theorem bind (first : SameUnlessFetched glyph p q)
    (next : ∀ a, SameUnlessFetched glyph (k a) (l a)) :
    SameUnlessFetched glyph (p >>= k) (q >>= l) where
  grows := by
    intro s
    have before := first.grows s
    simp only [bind_apply]
    revert before
    generalize p s = result
    intro before
    cases result with
    | error e t => exact before
    | ok a t => exact before.trans ((next a).grows t)
  same := by
    intro s unfetched
    have before := first.grows s
    have same := first.same s
    simp only [bind_apply] at unfetched ⊢
    revert before same unfetched
    generalize p s = result
    intro unfetched before same
    cases result with
    | error e t =>
        rw [same unfetched]
        rfl
    | ok a t =>
        -- fetches are not forgotten, so neither part has fetched the glyph
        have low : s.fetches glyph ≤ t.fetches glyph := before.fetches_le glyph
        have high := ((next a).grows t).fetches_le glyph
        have unfetched : (finalSession (k a t)).fetches glyph = s.fetches glyph := unfetched
        rw [same (by simp only [finalSession]; omega)]
        exact (next a).same t (by omega)

/-- Something is done last of all that fetches nothing. -/
theorem andFinally {f : Session → Session} (body : SameUnlessFetched glyph p q)
    (grows : ∀ s : Session, s.Grows (f s))
    (quiet : ∀ s : Session, (f s).fetches glyph = s.fetches glyph) :
    SameUnlessFetched glyph (Eval.andFinally p f) (Eval.andFinally q f) where
  grows := by
    intro s
    have before := body.grows s
    simp only [Eval.andFinally]
    revert before
    generalize p s = result
    intro before
    cases result with
    | error e t => exact before.trans (grows t)
    | ok a t => exact before.trans (grows t)
  same := by
    intro s unfetched
    have same := body.same s
    simp only [Eval.andFinally] at unfetched ⊢
    revert same unfetched
    generalize p s = result
    intro unfetched same
    cases result with
    | error e t => rw [same ((quiet t).symm.trans unfetched)]
    | ok a t => rw [same ((quiet t).symm.trans unfetched)]

theorem onFreshMachine (body : SameUnlessFetched glyph p q) :
    SameUnlessFetched glyph (Eval.onFreshMachine p) (Eval.onFreshMachine q) where
  grows := by
    intro s
    have before := body.grows { s with machine := {} }
    simp only [Eval.onFreshMachine]
    revert before
    generalize p { s with machine := {} } = result
    intro before
    cases result with
    | error e t => exact ⟨before.journal, before.trace⟩
    | ok a t => exact ⟨before.journal, before.trace⟩
  same := by
    intro s unfetched
    have same := body.same { s with machine := {} }
    simp only [Eval.onFreshMachine] at unfetched ⊢
    revert same unfetched
    generalize p { s with machine := {} } = result
    intro unfetched same
    cases result with
    | error e t => rw [same unfetched]
    | ok a t => rw [same unfetched]

theorem forM {items : List β} {p q : β → Eval PUnit}
    (each : ∀ item, SameUnlessFetched glyph (p item) (q item)) :
    SameUnlessFetched glyph (items.forM p) (items.forM q) := by
  induction items with
  | nil => exact pure PUnit.unit
  | cons item items ih =>
      show SameUnlessFetched glyph (p item >>= fun _ => items.forM p)
        (q item >>= fun _ => items.forM q)
      exact (each item).bind fun _ => ih

theorem traced {depth : Nat} {op : Operator} (h : SameUnlessFetched glyph p q) :
    SameUnlessFetched glyph (Eval.traced depth op p) (Eval.traced depth op q) :=
  have recorded : SameUnlessFetched glyph
      (modify fun s : Session => s.record (.operator depth op s.machine.stack) : Eval Unit)
      (modify fun s : Session => s.record (.operator depth op s.machine.stack)) :=
    change fun s => .record s _
  recorded.bind fun _ => h

theorem callHook (call : HintCall) :
    SameUnlessFetched glyph (Eval.callHook call) (Eval.callHook call) :=
  of_grows (Grows.callHook call)

theorem mapMachine (f : Machine → Machine) :
    SameUnlessFetched glyph (modify (Session.mapMachine f) : Eval Unit)
      (modify (Session.mapMachine f)) :=
  change fun s => ⟨List.suffix_refl s.journal, List.suffix_refl s.trace⟩

theorem mapDraft (f : Draft → Draft) :
    SameUnlessFetched glyph (modify (Session.mapDraft f) : Eval Unit)
      (modify (Session.mapDraft f)) :=
  change fun s => ⟨List.suffix_refl s.journal, List.suffix_refl s.trace⟩

/-! ## Components -/

section Components

variable {font : Font} {program : Bytes} {located : LocatedGlyph}

/-- Another glyph is the same in both fonts, and the glyph itself is fetched. -/
theorem withGlyph (found : font.locate glyph = .ok located) (other : GlyphId)
    {p q : LocatedGlyph → Eval α}
    (body : ∀ located, SameUnlessFetched glyph (p located) (q located)) :
    SameUnlessFetched glyph (Eval.withGlyph font other p)
      (Eval.withGlyph (font.withProgram glyph program) other q) := by
  have run : ∀ located, SameUnlessFetched glyph
      (Eval.andFinally (p located) (Session.note (.released other)))
      (Eval.andFinally (q located) (Session.note (.released other))) := fun located =>
    (body located).andFinally (fun s => .note s _) fun s =>
      List.count_cons_of_ne LoadEvent.noConfusion
  have own : SameUnlessFetched glyph (Eval.withGlyph font other p)
      (Eval.withGlyph font other q) := by
    simp only [withGlyph_eq]
    exact (lift _).bind fun located => (change fun s => .note s _).bind fun _ => run located
  refine ⟨own.grows, ?_⟩
  intro s unfetched
  by_cases same : other = glyph
  · subst same
    -- the glyph is found and fetched, and nothing that follows is forgotten
    exfalso
    have fetching : Eval.withGlyph font other p s = Eval.andFinally (p located)
        (Session.note (.released other)) (s.note (.fetched other)) :=
      bind_ok (locate_eq_ok.2 ⟨found, rfl⟩) _
    have grows := ((run located).grows (s.note (.fetched other))).fetches_le other
    have fetched : (s.note (.fetched other)).fetches other = s.fetches other + 1 :=
      List.count_cons_self
    rw [fetching] at unfetched
    omega
  · have elsewhere : Eval.withGlyph (font.withProgram glyph program) other q =
        Eval.withGlyph font other q := by
      simp only [withGlyph_eq, Font.locate_withProgram_of_ne same]
    rw [elsewhere]
    exact own.same s unfetched

theorem runProgram {evaluate evaluate' : Evaluator} {frame : Frame} {body : Bytes}
    (same : SameUnlessFetched glyph (evaluate frame body) (evaluate' frame body)) :
    SameUnlessFetched glyph (Eval.runProgram evaluate frame body)
      (Eval.runProgram evaluate' frame body) := by
  have advance : SameUnlessFetched glyph (Eval.setAdvance frame) (Eval.setAdvance frame) := by
    refine of_grows fun s => ?_
    rw [Eval.setAdvance_apply]
    exact .ok ⟨List.suffix_refl _, List.suffix_refl _⟩
  refine onFreshMachine ((change fun s => .record s _).bind fun _ => same.bind fun ending => ?_)
  dsimp only
  split
  · exact (throw _).bind fun _ => advance.bind fun _ => change fun s => .record s _
  · exact advance.bind fun _ => change fun s => .record s _

theorem drawComponent (found : font.locate glyph = .ok located) {evaluate evaluate' : Evaluator}
    {depth : Nat} (below : ∀ frame body, frame.depth = depth + 1 →
      SameUnlessFetched glyph (evaluate frame body) (evaluate' frame body))
    (origin : Point) (component : Component) :
    SameUnlessFetched glyph (Eval.drawComponent font evaluate depth origin component)
      (Eval.drawComponent (font.withProgram glyph program) evaluate' depth origin component) :=
  (callHook _).bind fun _ => (mapDraft _).bind fun _ => withGlyph found _ fun _ =>
    (runProgram (below _ _ rfl)).bind fun _ => mapDraft _

end Components

/-! ## Operators that compose glyphs -/

section Composing

variable {font : Font} {program : Bytes} {located : LocatedGlyph} {limit levels : Nat}
  {frame : Frame}

/-- Programs with fewer levels left do the same in both fonts. -/
abbrev Below (glyph : GlyphId) (font : Font) (program : Bytes) (limit levels : Nat) : Prop :=
  PairsBelow (fun {_} _ p q => SameUnlessFetched glyph p q) font (font.withProgram glyph program)
    limit levels fun levels frame => frame.depth + levels = limit

theorem compose (found : font.locate glyph = .ok located) {depth : Nat}
    (deep : depth + levels = limit) (below : Below glyph font program limit levels)
    (accent : Accent) :
    SameUnlessFetched glyph
      (Eval.compose font limit (Eval.below font limit levels) depth accent)
      (Eval.compose (font.withProgram glyph program) limit
        (Eval.below (font.withProgram glyph program) limit levels) depth accent) := by
  refine (lift (Eval.accentGlyph font _)).bind fun base => ?_
  refine (lift (Eval.accentGlyph font _)).bind fun mark => ?_
  refine (of_grows fun s => .ok (.refl s)).bind fun lists => ?_
  split
  · exact change fun _ => ⟨List.suffix_refl _, List.suffix_refl _⟩
  · cases levels with
    | zero => exact throw _
    | succ lower =>
        refine (mapDraft _).bind fun _ => (of_grows fun s => .ok (.refl s)).bind fun origin => ?_
        refine (forM fun component => ?_).andFinally
          (fun _ => ⟨List.suffix_refl _, List.suffix_refl _⟩) fun _ => rfl
        refine drawComponent found (fun frame body nested => ?_) origin component
        exact below lower rfl frame body (by omega)

theorem endchar (found : font.locate glyph = .ok located) (deep : frame.depth + levels = limit)
    (below : Below glyph font program limit levels) :
    SameUnlessFetched glyph (Eval.endchar font limit (Eval.below font limit levels) frame)
      (Eval.endchar (font.withProgram glyph program) limit
        (Eval.below (font.withProgram glyph program) limit levels) frame) := by
  have steps := Grows.operatorLaw
  refine (of_grows (steps.takeOperands _)).bind fun operands => (mapDraft _).bind fun _ => ?_
  dsimp only
  split
  · exact (of_grows (steps.popAccent _)).bind fun accent =>
      (compose found deep below accent).bind fun _ => of_grows steps.clearStack
  · split
    · exact (throw _).bind fun _ => of_grows steps.clearStack
    · exact of_grows steps.clearStack

theorem seac (found : font.locate glyph = .ok located) (deep : frame.depth + levels = limit)
    (below : Below glyph font program limit levels) :
    SameUnlessFetched glyph (Eval.seac font limit (Eval.below font limit levels) frame)
      (Eval.seac (font.withProgram glyph program) limit
        (Eval.below (font.withProgram glyph program) limit levels) frame) := by
  have steps := Grows.operatorLaw
  have bearing : ∀ bearing, SameUnlessFetched glyph (Eval.setLeftBearing frame bearing)
      (Eval.setLeftBearing frame bearing) := by
    intro bearing
    refine of_grows fun s => ?_
    rw [Eval.setLeftBearing_apply]
    exact .ok ⟨List.suffix_refl _, List.suffix_refl _⟩
  refine (mapMachine _).bind fun _ => ?_
  refine (of_grows (steps.stack fun stack => stack.operands)).bind fun operands => ?_
  refine (lift _).bind fun _ => (mapDraft _).bind fun _ => (bearing _).bind fun _ => ?_
  exact (of_grows (steps.popAccent _)).bind fun accent =>
    (compose found deep below accent).bind fun _ => of_grows steps.clearStack

end Composing

end SameUnlessFetched

/-! ## Evaluations -/

section Evaluations

variable {font : Font} {limit levels : Nat} {glyph : GlyphId} {located : LocatedGlyph}
  {program : Bytes} {frame : Frame}

theorem SameUnlessFetched.pairLaw (found : font.locate glyph = .ok located) :
    PairLaw font (font.withProgram glyph program) limit
      (fun levels frame => frame.depth + levels = limit)
      fun {_} _ p q => SameUnlessFetched glyph p q where
  globalSubrs := rfl
  deeper := by
    intro levels frame deep
    simp only at deep ⊢
    omega
  pure := pure
  throw := throw
  bind first next _ := first.bind next
  push value := of_grows (Session.Grows.operatorLaw.changeStack _)
  missing depth e := traced (throw e)
  popped depth _ _ := traced (of_grows (Session.Grows.operatorLaw.popOperand _))
  alone nests _ unread := by
    refine traced ?_
    rw [Eval.execute_of_alone nests unread]
    exact of_grows (Session.Grows.operatorLaw.execute nests unread)
  endchar deep below := traced (endchar found deep below)
  seac deep below := traced (seac found deep below)

/-- A program that does not fetch the glyph does the same in both fonts. -/
theorem Eval.evaluate_withProgram (found : font.locate glyph = .ok located)
    (deep : frame.depth + levels = limit) (body : Bytes) :
    SameUnlessFetched glyph (Eval.evaluate font limit levels frame body)
      (Eval.evaluate (font.withProgram glyph program) limit levels frame body) :=
  (SameUnlessFetched.pairLaw found).evaluate deep body

end Evaluations

end Type2Glyphs
