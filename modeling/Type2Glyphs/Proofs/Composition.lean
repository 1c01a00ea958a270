import Type2Glyphs.Proofs.Draft.Whole
import Type2Glyphs.Proofs.Law.Parting
import Type2Glyphs.Proofs.Loading

/-!
# Composition — what composing an accented glyph leaves alone

The components of an accented glyph run whole programs on the draft of the glyph, and may move the
origin, be accented themselves, and fail anywhere.  Whoever composes a glyph finds the measures, the
settings and the origin as they were, and the outline from before at the beginning of what is drawn.

* `ComponentInvariant.compose`: composing keeps what the changes of components keep, and so
  `Draft.Kept`, by the coupling of a run with itself;
* `Eval.origin_compose`: the origin is brought back at the end, whatever has happened;
* `Eval.commits_compose`: the last step of a success is to commit a component.
-/

namespace Type2Glyphs

open Outcome

/-- A run that agrees with itself ends in a session that is related to itself. -/
theorem Agree.final_of_self {α : Type} {R : Session → Session → Prop}
    {result : EStateM.Result LoadError Session α}
    (h : Agree (fun _ => False) R result result) :
    R (finalSession result) (finalSession result) := by
  cases h with
  | ok related => exact related
  | error related => exact related
  | excuse impossible => exact impossible.elim

/-- What the changes of components keep is kept by composing a glyph, whether it fails or not. -/
theorem ComponentInvariant.compose {I : Draft → Prop} (inv : ComponentInvariant I) (font : Font)
    (limit levels depth : Nat) (accent : Accent) {s : Session} (h : I s.draft) :
    I (finalSession (Eval.compose font limit (Eval.below font limit levels) depth accent
      s)).draft := by
  -- listing components changes no draft, and any hint hook will do
  have c : Coupling (fun _ => False) (Alike (fun d d' => d' = d ∧ I d) Eq fun _ => True)
      (Frame.Alike fun c c' => c = true ∧ c' = true) Eq :=
    (inv.draftCoupling fun _ => False).coupling (fun _ _ _ _ same _ => by rw [same]) _
  have related : Alike (fun d d' => d' = d ∧ I d) Eq (fun _ => True) s s :=
    ⟨rfl, ⟨rfl, h⟩, rfl, rfl, rfl, fun _ _ => trivial, fun _ => rfl⟩
  have frames : Frame.Alike (fun c c' => c = true ∧ c' = true) ⟨{}, true, depth⟩
      ⟨{}, true, depth⟩ := ⟨rfl, rfl, rfl⟩
  have lower := c.below font (.inl ⟨(rfl : limit = limit), (rfl : levels = levels)⟩)
  have outcomes := c.compose font lower frames accent related
  exact outcomes.final_of_self.draft.2

namespace Eval

variable {font : Font} {limit depth : Nat} {nested : Option Evaluator} {accent : Accent}
  {s t : Session}

/-! ## The origin -/

theorem origin_drawComponents (font : Font) (limit : Nat) (nested : Option Evaluator)
    (depth : Nat) (components : List Component) (s : Session) :
    (finalSession (drawComponents font limit nested depth components s)).draft.origin =
      s.draft.origin := by
  cases nested with
  | none => rfl
  | some evaluate =>
      show (finalSession (andFinally (components.forM (drawComponent font evaluate depth
        s.draft.commit.origin)) (.mapDraft fun draft => { draft with
          origin := s.draft.commit.origin }) (s.mapDraft Draft.commit))).draft.origin = _
      rw [Draft.origin_commit]
      -- the components may have succeeded or failed
      simp only [andFinally]
      split <;> rfl

theorem origin_compose (font : Font) (limit : Nat) (nested : Option Evaluator) (depth : Nat)
    (accent : Accent) (s : Session) :
    (finalSession (compose font limit nested depth accent s)).draft.origin = s.draft.origin := by
  rw [compose_eq]
  cases accentGlyph font accent.baseCode with
  | error e => rfl
  | ok base =>
      cases accentGlyph font accent.accentCode with
      | error e => rfl
      | ok mark =>
          show (finalSession (composeOf font limit nested depth _ s)).draft.origin = _
          rw [composeOf_apply]
          split
          · rfl
          · exact origin_drawComponents font limit nested depth _ s

/-! ## The last component -/

theorem commits_drawComponent {evaluate : Evaluator} {origin : Point} {component : Component}
    (drawn : drawComponent font evaluate depth origin component s = .ok () t) :
    ∃ draft : Draft, t.draft = draft.commit := by
  rcases bind_eq_ok.1 drawn with ⟨_, _, _, moving⟩
  rcases bind_eq_ok.1 moving with ⟨_, _, _, drawing⟩
  rcases withGlyph_eq_ok.1 drawing with ⟨located, u, _, running, rfl⟩
  rcases bind_eq_ok.1 running with ⟨_, v, _, committed⟩
  cases committed
  exact ⟨v.draft, rfl⟩

/-- A glyph that was composed without listing its components has committed the last of them. -/
theorem commits_compose (lists : s.draft.listsComponents = false)
    (composed : compose font limit nested depth accent s = .ok () t) :
    ∃ draft : Draft, t.draft = { draft.commit with origin := s.draft.origin } := by
  rw [compose_eq] at composed
  rcases bind_eq_ok.1 composed with ⟨base, _, lifted, withBase⟩
  rw [(lift_eq_ok.1 lifted).2] at withBase
  rcases bind_eq_ok.1 withBase with ⟨mark, _, lifted, withMark⟩
  rw [(lift_eq_ok.1 lifted).2, composeOf_apply, lists, if_neg Bool.false_ne_true] at withMark
  cases nested with
  | none => cases withMark
  | some evaluate =>
      rcases bind_eq_ok.1 withMark with ⟨_, _, committed, fromOrigin⟩
      cases committed
      rcases bind_eq_ok.1 fromOrigin with ⟨origin, _, read, drawing⟩
      cases read
      rcases andFinally_eq_ok.1 drawing with ⟨u, drawn, rfl⟩
      -- the accent is the second of two components, and nothing follows it
      rcases bind_eq_ok.1 drawn with ⟨_, _, _, later⟩
      rcases bind_eq_ok.1 later with ⟨_, _, last, done⟩
      cases done
      rcases commits_drawComponent last with ⟨draft, same⟩
      refine ⟨draft, ?_⟩
      show { u.draft with origin := s.draft.commit.origin } = _
      rw [same, Draft.origin_commit]

/-! ## The result -/

/-- Whatever composing a glyph comes to, measures, settings and origin are those from before, and
the outline from before is the beginning of the one that is left.  If the components are drawn, no
contour is left open and the component in progress has nothing. -/
theorem compose_keeps (font : Font) (limit levels depth : Nat) (accent : Accent) {s : Session}
    (reachable : s.draft.Reachable) :
    let result := compose font limit (below font limit levels) depth accent s
    let after := (finalSession result).draft
    after.origin = s.draft.origin ∧ after.advance = s.draft.advance ∧
      after.leftBearing = s.draft.leftBearing ∧ after.keepsPoints = s.draft.keepsPoints ∧
      after.listsComponents = s.draft.listsComponents ∧
      (s.draft.base.append s.draft.current).Begins (after.base.append after.current) ∧
      (s.draft.listsComponents = false → ∀ t, result = .ok () t →
        t.draft.isOpen = false ∧ t.draft.current = .empty) := by
  intro result after
  have kept : s.draft.Kept after :=
    (Draft.kept_invariant s.draft).compose font limit levels depth accent (.refl reachable.neat)
  refine ⟨origin_compose font limit _ depth accent s, kept.advance, kept.leftBearing,
    kept.keepsPoints, kept.listsComponents, kept.whole, fun lists t composed => ?_⟩
  rcases commits_compose lists composed with ⟨draft, same⟩
  have neat : t.draft.Neat := by
    have final : after = t.draft := congrArg (fun result => (finalSession result).draft) composed
    rw [← final]
    exact kept.neat
  constructor
  · rw [same]
    exact draft.isOpen_commit
  · cases keeps : t.draft.keepsPoints with
    | false => exact neat.pointless keeps
    | true =>
        refine neat.current ?_
        rw [same] at keeps ⊢
        exact draft.isEmpty_current_commit keeps

/-- The error with which a run has ended, if it has. -/
def error? {α : Type} : EStateM.Result LoadError Session α → Option LoadError
  | .ok _ _ => none
  | .error e _ => some e

theorem ok_of_error?_eq_none {result : EStateM.Result LoadError Session Unit}
    (h : error? result = none) : result = .ok () (finalSession result) := by
  cases result with
  | ok _ t => rfl
  | error e t => cases h

theorem error_of_error?_eq_some {result : EStateM.Result LoadError Session Unit} {e : LoadError}
    (h : error? result = some e) : result = .error e (finalSession result) := by
  cases result with
  | ok _ t => cases h
  | error e' t =>
      cases h
      rfl

/-- A draft with a contour open away from the origin. -/
def begun : Draft :=
  ((Draft.perform (.setOrigin ⟨1, 0⟩) {}).2.perform (.startContour 0)).2

/-- A glyph is composed in the middle of a contour: once with both components, and once with an
accent that the font does not have, when the base is drawn already. -/
theorem compose_keeps_accented :
    ∃ t lost : Session,
      compose Font.accented 1 (below Font.accented 1 1) 0 ⟨1, 2, ⟨0, 1⟩⟩ { draft := begun } =
        .ok () t ∧
      compose Font.accented 1 (below Font.accented 1 1) 0 ⟨1, 9, ⟨0, 1⟩⟩ { draft := begun } =
        .error (.glyphOutOfRange ⟨9⟩) lost ∧
      t.draft.isOpen = false ∧ t.draft.current = .empty ∧
      lost.draft.origin = begun.origin ∧
      (begun.base.append begun.current).Begins (lost.draft.base.append lost.draft.current) := by
  have reachable : Draft.Reachable (Session.draft { draft := begun }) :=
    .perform (.perform (.blank true false) _) _
  have draws : Draft.listsComponents (Session.draft { draft := begun }) = false := by
    decide +kernel
  have composed := compose_keeps Font.accented 1 1 0 ⟨1, 2, ⟨0, 1⟩⟩ reachable
  have failed := compose_keeps Font.accented 1 1 0 ⟨1, 9, ⟨0, 1⟩⟩ reachable
  have success := ok_of_error?_eq_none (by decide +kernel : error? (compose Font.accented 1
    (below Font.accented 1 1) 0 ⟨1, 2, ⟨0, 1⟩⟩ { draft := begun }) = none)
  have failure := error_of_error?_eq_some (by decide +kernel : error? (compose Font.accented 1
    (below Font.accented 1 1) 0 ⟨1, 9, ⟨0, 1⟩⟩ { draft := begun }) =
      some (.glyphOutOfRange ⟨9⟩))
  obtain ⟨_, _, _, _, _, _, closed⟩ := composed
  obtain ⟨origin, _, _, _, _, begins, _⟩ := failed
  exact ⟨_, _, success, failure, (closed draws _ success).1, (closed draws _ success).2, origin,
    begins⟩

end Eval

end Type2Glyphs
