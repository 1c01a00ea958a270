import Type2Glyphs.Proofs.Coupling.Evaluate
import Type2Glyphs.Proofs.Draft.Steps
import Type2Glyphs.Proofs.GlyphRun

/-!
# Draft.Coupling — runs that differ in their drafts

Most pairs of runs that are compared differ in the draft alone, or in the draft and in what nobody
reads again.  `Alike D C hooks` relates such sessions: the drafts are related by `D`, the components
that were listed by `C`, and the rest is equal, up to the trace.  The hint hook is one of `hooks`;
if there are none, nobody reads the journals, and they may differ too.

For a relation between drafts it is enough to look at the few changes that a draft undergoes:
`DraftCoupling` lists them, and `DraftCoupling.coupling` makes whole sessions go in step.  For an
invariant of one draft they are listed in `DraftInvariant`.
-/

namespace Type2Glyphs

/-! ## Relations between drafts -/

/-- Related drafts stay related when a contour is closed or opened and when points are added to it.
The second draft has as many points and contours as the first, or fewer if the first is excused for
running into a limit. -/
structure LocalDraftCoupling (excused : LoadError → Prop) (D : Draft → Draft → Prop) : Prop where
  isOpen : ∀ {d d'}, D d d' → d'.isOpen = d.isOpen
  counts : ∀ {d d'}, D d d' →
    d'.pointCount = d.pointCount ∧ d'.contourCount = d.contourCount ∨
      excused .outOfMemory ∧ d'.pointCount ≤ d.pointCount ∧ d'.contourCount ≤ d.contourCount
  closeContour : ∀ {d d'}, D d d' → D d.closeContour d'.closeContour
  start : ∀ {d d'}, D d d' → d.isOpen = false → d.contourCount < maxContours →
    d.pointCount < maxPoints → ∀ p, D (d.openContour.add p .on) (d'.openContour.add p .on)
  line : ∀ {d d'}, D d d' → d.isOpen = true → d.pointCount < maxPoints → ∀ p,
    D (d.add p .on) (d'.add p .on)
  curve : ∀ {d d'}, D d d' → d.isOpen = true → d.pointCount + 3 ≤ maxPoints → ∀ c₁ c₂ p,
    D (d.addCubic c₁ c₂ p) (d'.addCubic c₁ c₂ p)

/-- Related drafts also stay related when components are drawn.  One of the two may belong to a
component and the other one not, as far as `kinds` allows it. -/
structure DraftCoupling (excused : LoadError → Prop) (D : Draft → Draft → Prop)
    (kinds : Bool → Bool → Prop) (origins : Point → Point → Prop) : Prop
    extends LocalDraftCoupling excused D where
  components : kinds true true
  commit : ∀ {d d'}, D d d' → D d.commit d'.commit
  listsComponents : ∀ {d d'}, D d d' → d'.listsComponents = d.listsComponents
  origin : ∀ {d d'}, D d d' → origins d.origin d'.origin
  withOrigin : ∀ {d d'}, D d d' → ∀ {o o'}, origins o o' →
    D { d with origin := o } { d' with origin := o' }
  displaced : ∀ {o o'}, origins o o' → ∀ v, origins (o + v) (o' + v)
  advance : ∀ {c c'}, kinds c c' → ∀ {d d'}, D d d' → ∀ a,
    D (if c then d else { d with advance := a }) (if c' then d' else { d' with advance := a })
  leftBearing : ∀ {c c'}, kinds c c' → ∀ {d d'}, D d d' → ∀ b,
    D (if c then d else { d with leftBearing := b })
      (if c' then d' else { d' with leftBearing := b })

namespace LocalDraftCoupling

variable {excused : LoadError → Prop} {D : Draft → Draft → Prop}

/-- Outcomes of a check and what follows it agree, if the first check is at least as strict. -/
theorem agree_check {full full' : Prop} [Decidable full] [Decidable full'] {e : LoadError}
    {d d' : Draft} {result result' : EStateM.Result LoadError Draft Unit}
    (strict : (full' ↔ full) ∨ excused e ∧ (full' → full)) (related : D d d')
    (passed : ¬ full → Agree excused D result result') :
    Agree excused D (if full then .error e d else result)
      (if full' then .error e d' else result') := by
  by_cases h : full
  · simp only [if_pos h]
    rcases strict with same | ⟨pardon, _⟩
    · simp only [if_pos (same.2 h)]
      exact .error related
    · exact .excuse pardon
  · have h' : ¬ full' := by
      rcases strict with same | ⟨_, implied⟩
      · exact fun full' => h (same.1 full')
      · exact fun full' => h (implied full')
    simp only [if_neg h, if_neg h']
    exact passed h

theorem startContour (c : LocalDraftCoupling excused D) (p : Point) :
    Simulates excused D (Draft.startContour p) (Draft.startContour p) := by
  intro d d' related
  simp only [Draft.startContour_apply]
  have closed := c.closeContour related
  refine agree_check ?_ closed ?_
  · rcases c.counts related with ⟨points, contours⟩ | ⟨pardon, points, contours⟩
    · exact .inl (by rw [points, contours])
    · exact .inr ⟨pardon, by omega⟩
  · intro room
    refine .ok (c.start closed d.isOpen_closeContour ?_ ?_ p)
    · simp only [Draft.contourCount_closeContour]
      omega
    · simp only [Draft.pointCount_closeContour]
      omega

theorem addOnCurve (c : LocalDraftCoupling excused D) (p : Point) :
    Simulates excused D (Draft.addOnCurve p) (Draft.addOnCurve p) := by
  intro d d' related
  simp only [Draft.addOnCurve_apply]
  refine agree_check ?_ related fun room => agree_check ?_ related fun isOpen => ?_
  · rcases c.counts related with ⟨points, _⟩ | ⟨pardon, points, _⟩
    · exact .inl (by rw [points])
    · exact .inr ⟨pardon, by omega⟩
  · exact .inl (by rw [c.isOpen related])
  · exact .ok (c.line related (by simpa using isOpen) (by omega) p)

theorem addCurve (c : LocalDraftCoupling excused D) (c₁ c₂ p : Point) :
    Simulates excused D (Draft.addCurve c₁ c₂ p) (Draft.addCurve c₁ c₂ p) := by
  intro d d' related
  simp only [Draft.addCurve_apply]
  refine agree_check ?_ related fun room => agree_check ?_ related fun isOpen => ?_
  · rcases c.counts related with ⟨points, _⟩ | ⟨pardon, points, _⟩
    · exact .inl (by rw [points])
    · exact .inr ⟨pardon, by omega⟩
  · exact .inl (by rw [c.isOpen related])
  · exact .ok (c.curve related (by simpa using isOpen) (by omega) c₁ c₂ p)

end LocalDraftCoupling

/-! ## Sessions with related drafts -/

/-- Sessions that are equal up to the draft, the components, the trace, and a journal that nobody
reads. -/
structure Alike (D : Draft → Draft → Prop) (C : List Component → List Component → Prop)
    (hooks : HintHook → Prop) (s s' : Session) : Prop where
  machine : s'.machine = s.machine
  draft : D s.draft s'.draft
  hook : s'.hook = s.hook
  random : s'.random = s.random
  components : C s.components s'.components
  hooked : ∀ hook, s.hook = some hook → hooks hook
  journal : (∃ hook, hooks hook) → s'.journal = s.journal

/-- Frames of the same subfont, of components or not as `kinds` allows it. -/
def Frame.Alike (kinds : Bool → Bool → Prop) (f f' : Frame) : Prop :=
  f'.subfont = f.subfont ∧ kinds f.isComponent f'.isComponent

namespace Alike

open Outcome

variable {excused : LoadError → Prop} {D : Draft → Draft → Prop}
  {C : List Component → List Component → Prop} {hooks : HintHook → Prop}

/-- With no hook allowed there is none. -/
theorem noHook {s s' : Session} (h : Alike D C (fun _ => False) s s') : s.hook = none :=
  Option.eq_none_iff_forall_ne_some.2 h.hooked

/-- Where neither session has a hook, their journals may differ. -/
theorem of_unhooked {s s' : Session} (machine : s'.machine = s.machine)
    (draft : D s.draft s'.draft) (random : s'.random = s.random)
    (components : C s.components s'.components) (unhooked : s.hook = none)
    (unhooked' : s'.hook = none) : Alike D C (fun _ => False) s s' := by
  refine ⟨machine, draft, unhooked'.trans unhooked.symm, random, components, ?_, ?_⟩
  · intro hook hooked
    have impossible := unhooked.symm.trans hooked
    cases impossible
  · rintro ⟨_, impossible⟩
    exact impossible.elim

theorem mapDraft {s s' : Session} (h : Alike D C hooks s s') {f f' : Draft → Draft}
    (related : D (f s.draft) (f' s'.draft)) :
    Alike D C hooks (s.mapDraft f) (s'.mapDraft f') :=
  ⟨h.machine, related, h.hook, h.random, h.components, h.hooked, h.journal⟩

theorem record {s s' : Session} (h : Alike D C hooks s s') (entry entry' : TraceEntry) :
    Alike D C hooks (s.record entry) (s'.record entry') :=
  ⟨h.machine, h.draft, h.hook, h.random, h.components, h.hooked, h.journal⟩

theorem note {s s' : Session} (h : Alike D C hooks s s') (event : LoadEvent) :
    Alike D C hooks (s.note event) (s'.note event) :=
  ⟨h.machine, h.draft, h.hook, h.random, h.components, h.hooked,
    fun some => congrArg (event :: ·) (h.journal some)⟩

theorem onDraft {p q : Draft.Program Unit} (h : Simulates excused D p q) :
    Simulates excused (Alike D C hooks) (Eval.onDraft p) (Eval.onDraft q) :=
  h.onDraft (fun related => related.draft) fun related _ _ drafts =>
    ⟨related.machine, drafts, related.hook, related.random, related.components, related.hooked,
      related.journal⟩

theorem callHook (call : HintCall) :
    Simulates excused (Alike D C hooks) (Eval.callHook call) (Eval.callHook call) := by
  refine .callHook (fun h => h.hook) ?_ (fun h => h.note) ?_ call
  · -- there is a hook, so the journals are equal
    intro s s' related hook hooked
    simp only [Session.hintCalls]
    rw [related.journal ⟨hook, related.hooked hook hooked⟩]
  · intro s s' related
    exact ⟨related.machine, related.draft, rfl, related.random, related.components, nofun,
      related.journal⟩

theorem machineCoupling : MachineCoupling (Alike D C hooks) where
  machine h := h.machine
  withMachine h _ := ⟨rfl, h.draft, h.hook, h.random, h.components, h.hooked, h.journal⟩

theorem localCoupling (c : LocalDraftCoupling excused D) :
    LocalCoupling excused (Alike D C hooks) where
  toMachineCoupling := machineCoupling
  random h := h.random
  withRandom h _ := ⟨h.machine, h.draft, h.hook, rfl, h.components, h.hooked, h.journal⟩
  drawn h _ := h.record _ _
  isOpen h := c.isOpen h.draft
  startContour p := onDraft (c.startContour p)
  addOnCurve p := onDraft (c.addOnCurve p)
  addCurve c₁ c₂ p := onDraft (c.addCurve c₁ c₂ p)
  callHook := callHook

end Alike

/-- Sessions whose drafts are coupled are coupled, if components can be listed in both. -/
theorem DraftCoupling.coupling {excused : LoadError → Prop} {D : Draft → Draft → Prop}
    {kinds : Bool → Bool → Prop} {origins : Point → Point → Prop}
    {C : List Component → List Component → Prop} (c : DraftCoupling excused D kinds origins)
    (lists : ∀ {d d'}, D d d' → d.listsComponents = true → ∀ {list list'}, C list list' →
      ∀ more, C (list ++ more) (list' ++ more)) (hooks : HintHook → Prop) :
    Coupling excused (Alike D C hooks) (Frame.Alike kinds) origins where
  toLocalCoupling := Alike.localCoupling c.toLocalDraftCoupling
  subfont h := h.1
  deeper h := h
  component _ _ := ⟨rfl, c.components⟩
  start h := h.record _ _
  stop h := h.record _ _
  operator _ _ _ h _ _ := h.record _ _
  fetched h _ := h.note _
  released h _ := h.note _
  closeContour h := h.mapDraft (c.closeContour h.draft)
  commit h := h.mapDraft (c.commit h.draft)
  listsComponents h := c.listsComponents h.draft
  list h listing more := ⟨h.machine, h.draft, h.hook, h.random,
    lists h.draft listing h.components more, h.hooked, h.journal⟩
  origin h := c.origin h.draft
  withOrigin h _ _ same := h.mapDraft (c.withOrigin h.draft same)
  displaced same := c.displaced same
  setAdvance := by
    intro f f' frames s s' h
    simp only [Eval.setAdvance_apply, frames.1, h.machine]
    exact .ok (h.mapDraft (c.advance frames.2 h.draft _))
  setLeftBearing := by
    intro f f' frames bearing s s' h
    simp only [Eval.setLeftBearing_apply]
    exact .ok (h.mapDraft (c.leftBearing frames.2 h.draft _))

/-! ## Invariants of drafts -/

/-- What holds of a draft through every change that a glyph program makes. -/
structure DraftInvariant (I : Draft → Prop) : Prop where
  closeContour : ∀ {d}, I d → I d.closeContour
  start : ∀ {d}, I d → d.isOpen = false → d.contourCount < maxContours →
    d.pointCount < maxPoints → ∀ p, I (d.openContour.add p .on)
  line : ∀ {d}, I d → d.isOpen = true → d.pointCount < maxPoints → ∀ p, I (d.add p .on)
  curve : ∀ {d}, I d → d.isOpen = true → d.pointCount + 3 ≤ maxPoints → ∀ c₁ c₂ p,
    I (d.addCubic c₁ c₂ p)
  commit : ∀ {d}, I d → I d.commit
  withOrigin : ∀ {d}, I d → ∀ o, I { d with origin := o }
  advance : ∀ {d}, I d → ∀ a, I { d with advance := a }
  leftBearing : ∀ {d}, I d → ∀ b, I { d with leftBearing := b }

namespace DraftInvariant

variable {I : Draft → Prop}

/-- An invariant couples every draft that has it with itself. -/
theorem draftCoupling (inv : DraftInvariant I) (excused : LoadError → Prop) :
    DraftCoupling excused (fun d d' => d' = d ∧ I d) Eq Eq where
  isOpen h := by rw [h.1]
  counts h := .inl (by rw [h.1]; exact ⟨rfl, rfl⟩)
  closeContour h := ⟨by rw [h.1], inv.closeContour h.2⟩
  start h closed contours points p := ⟨by rw [h.1], inv.start h.2 closed contours points p⟩
  line h isOpen points p := ⟨by rw [h.1], inv.line h.2 isOpen points p⟩
  curve h isOpen points c₁ c₂ p := ⟨by rw [h.1], inv.curve h.2 isOpen points c₁ c₂ p⟩
  components := rfl
  commit h := ⟨by rw [h.1], inv.commit h.2⟩
  listsComponents h := by rw [h.1]
  origin h := by rw [h.1]
  withOrigin h _ _ same := ⟨by rw [h.1, same], inv.withOrigin h.2 _⟩
  displaced same v := by rw [same]
  advance := by
    rintro c _ rfl d d' ⟨rfl, h⟩ a
    cases c with
    | true => exact ⟨rfl, h⟩
    | false => exact ⟨rfl, inv.advance h a⟩
  leftBearing := by
    rintro c _ rfl d d' ⟨rfl, h⟩ b
    cases c with
    | true => exact ⟨rfl, h⟩
    | false => exact ⟨rfl, inv.leftBearing h b⟩

theorem related_of_drawn (inv : DraftInvariant I) {font : Font} {limit : Nat} {glyph : GlyphId}
    {hooks : HintHook → Prop} {s t : Session} (start : I s.draft)
    (hooked : ∀ hook, s.hook = some hook → hooks hook)
    (drawn : Eval.drawGlyph font limit glyph s = .ok () t) :
    Alike (fun d d' => d' = d ∧ I d) Eq hooks t t := by
  have c : Coupling _ (Alike _ Eq hooks) _ _ :=
    (inv.draftCoupling fun _ => False).coupling (fun _ _ _ _ same _ => by rw [same]) hooks
  have related : Alike (fun d d' => d' = d ∧ I d) Eq hooks s s :=
    ⟨rfl, ⟨rfl, start⟩, rfl, rfl, rfl, hooked, fun _ => rfl⟩
  have outcomes := c.drawGlyph font glyph (.inl (rfl : limit = limit)) (fun _ => ⟨rfl, rfl⟩) related
  rw [drawn] at outcomes
  rcases outcomes.of_ok with ⟨t', same, after⟩
  cases same
  exact after

/-- An invariant that holds at first holds of what is drawn of a glyph. -/
theorem drawGlyph (inv : DraftInvariant I) {font : Font} {limit : Nat} {glyph : GlyphId}
    {s t : Session} (start : I s.draft)
    (drawn : Eval.drawGlyph font limit glyph s = .ok () t) : I t.draft :=
  (inv.related_of_drawn start (fun _ _ => trivial : ∀ hook, s.hook = some hook → True)
    drawn).draft.2

end DraftInvariant

/-- No hint hook comes up while a glyph is drawn. -/
theorem hooks_of_drawn {font : Font} {limit : Nat} {glyph : GlyphId} {hooks : HintHook → Prop}
    {s t : Session} (hooked : ∀ hook, s.hook = some hook → hooks hook)
    (drawn : Eval.drawGlyph font limit glyph s = .ok () t) :
    ∀ hook, t.hook = some hook → hooks hook := by
  have anything : DraftInvariant fun _ => True :=
    ⟨fun _ => trivial, fun _ _ _ _ _ => trivial, fun _ _ _ _ => trivial,
      fun _ _ _ _ _ _ => trivial, fun _ => trivial, fun _ _ => trivial, fun _ _ => trivial,
      fun _ _ => trivial⟩
  exact (anything.related_of_drawn trivial hooked drawn).hooked

end Type2Glyphs
