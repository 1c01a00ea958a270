import Type2Glyphs.Load.Session

/-!
# Simulation — runs that go in step

Many facts about loading compare two runs: with and without points, with two limits of nesting, of a
component and of the glyph on its own.  `Simulates excused R p q` says that from states related by
`R` the programs `p` and `q` come to the same value or error, in states that `R` relates again.

Errors of the first program that `excused` names are left out of the comparison.  With every error
excused, all that is left to show is what the first program does when it succeeds, and an invariant
`I` of one program is a simulation of the program by itself, for `R s s' := s' = s ∧ I s`.
-/

namespace Type2Glyphs

variable {ε σ σ' α β : Type} {excused : ε → Prop} {R : σ → σ' → Prop}

/-- Outcomes with the same value or error and related states, or an excused error of the first. -/
inductive Agree (excused : ε → Prop) (R : σ → σ' → Prop) :
    EStateM.Result ε σ α → EStateM.Result ε σ' α → Prop
  | ok {a : α} {t : σ} {t' : σ'} (related : R t t') : Agree excused R (.ok a t) (.ok a t')
  | error {e : ε} {t : σ} {t' : σ'} (related : R t t') : Agree excused R (.error e t) (.error e t')
  | excuse {e : ε} {t : σ} {result : EStateM.Result ε σ' α} (h : excused e) :
      Agree excused R (.error e t) result

/-- From related states the two programs come to outcomes that agree. -/
def Simulates (excused : ε → Prop) (R : σ → σ' → Prop) (p : EStateM ε σ α)
    (q : EStateM ε σ' α) : Prop :=
  ∀ ⦃s : σ⦄ ⦃s' : σ'⦄, R s s' → Agree excused R (p s) (q s')

namespace Agree

/-- Agreement gives a success of the second run for one of the first. -/
theorem of_ok {a : α} {t : σ} {result : EStateM.Result ε σ' α}
    (h : Agree excused R (.ok a t) result) : ∃ t', result = .ok a t' ∧ R t t' := by
  cases h with
  | ok related => exact ⟨_, rfl, related⟩

/-- Agreement gives the same error of the second run for one of the first that is not excused. -/
theorem of_error {e : ε} {t : σ} {result : EStateM.Result ε σ' α}
    (h : Agree excused R (.error e t) result) (counts : ¬ excused e) :
    ∃ t', result = .error e t' ∧ R t t' := by
  cases h with
  | error related => exact ⟨_, rfl, related⟩
  | excuse h => exact absurd h counts

/-- Outcomes that agree, and programs that agree from there on.  After an error the sessions have to
be related as after the programs, unless it is excused. -/
theorem bind {S : σ → σ' → Prop} {p : EStateM ε σ α} {q : EStateM ε σ' α}
    {k : α → EStateM ε σ β} {l : α → EStateM ε σ' β} {s : σ} {s' : σ'}
    (first : Agree excused R (p s) (q s'))
    (next : ∀ a ⦃t t'⦄, R t t' → Agree excused S (k a t) (l a t'))
    (failed : ∀ e ⦃t t'⦄, R t t' → excused e ∨ S t t') :
    Agree excused S ((p >>= k) s) ((q >>= l) s') := by
  change Agree excused S (EStateM.bind p k s) (EStateM.bind q l s')
  simp only [EStateM.bind]
  revert first
  generalize p s = result
  generalize q s' = result'
  intro first
  cases first with
  | ok related => exact next _ related
  | @error e t t' related =>
      rcases failed e related with pardon | related
      · exact .excuse pardon
      · exact .error related
  | excuse h => exact .excuse h

theorem mono {S : σ → σ' → Prop} {result : EStateM.Result ε σ α} {result' : EStateM.Result ε σ' α}
    (h : Agree excused R result result') (weaken : ∀ s s', R s s' → S s s') :
    Agree excused S result result' := by
  cases h with
  | ok related => exact .ok (weaken _ _ related)
  | error related => exact .error (weaken _ _ related)
  | excuse h => exact .excuse h

end Agree

namespace Simulates

/-! ## Programs of any state -/

/-- Two runs from one state are the same. -/
theorem refl (p : EStateM ε σ α) : Simulates excused (fun s s' => s' = s) p p := by
  intro s s' same
  rw [same]
  cases p s with
  | ok a t => exact .ok rfl
  | error e t => exact .error rfl

theorem pure (a : α) : Simulates excused R (pure a) (pure a) := by
  intro s s' related
  exact .ok related

theorem throw (e : ε) :
    Simulates excused R (throw e : EStateM ε σ α) (throw e : EStateM ε σ' α) := by
  intro s s' related
  exact .error related

theorem excuse {e : ε} (h : excused e) (q : EStateM ε σ' α) :
    Simulates excused R (throwThe ε e) q := by
  intro s s' _
  exact .excuse h

/-- Programs that go in step, one after the other. -/
theorem bind {p : EStateM ε σ α} {q : EStateM ε σ' α} {k : α → EStateM ε σ β}
    {l : α → EStateM ε σ' β} (first : Simulates excused R p q)
    (next : ∀ a, Simulates excused R (k a) (l a)) :
    Simulates excused R (p >>= k) (q >>= l) :=
  fun _ _ related => (first related).bind next fun _ _ _ => .inr

theorem modify {f : σ → σ} {g : σ' → σ'} (h : ∀ ⦃s s'⦄, R s s' → R (f s) (g s')) :
    Simulates excused R (modify f) (modify g) := by
  intro s s' related
  exact .ok (h related)

/-- A program run on each item of a list. -/
theorem forM {items : List β} {p : β → EStateM ε σ PUnit} {q : β → EStateM ε σ' PUnit}
    (h : ∀ item, Simulates excused R (p item) (q item)) :
    Simulates excused R (items.forM p) (items.forM q) := by
  induction items with
  | nil => exact Simulates.pure PUnit.unit
  | cons item items ih =>
      show Simulates excused R (p item >>= fun _ => items.forM p) (q item >>= fun _ => items.forM q)
      exact (h item).bind fun _ => ih

/-! ## Programs on sessions -/

section Sessions

open Eval

variable {excused : LoadError → Prop} {R : Session → Session → Prop}

theorem lift (result : Except LoadError α) :
    Simulates excused R (Eval.lift result) (Eval.lift result) := by
  cases result with
  | ok a => exact Simulates.pure a
  | error e => exact Simulates.throw e

/-- What is seen may differ only if the relation allows it. -/
theorem gets {part : Session → α} (h : ∀ ⦃s s'⦄, R s s' → part s' = part s) :
    Simulates excused R (Eval.gets part) (Eval.gets part) := by
  intro s s' related
  have same : Eval.gets part s' = .ok (part s) s' := by
    rw [← h related]
    rfl
  rw [same]
  exact .ok related

/-- Something is done last of all, after a failure too. -/
theorem andFinally {p q : Eval α} {f g : Session → Session} (body : Simulates excused R p q)
    (last : ∀ ⦃s s'⦄, R s s' → R (f s) (g s')) :
    Simulates excused R (Eval.andFinally p f) (Eval.andFinally q g) := by
  intro s s' related
  have outcomes := body related
  simp only [Eval.andFinally]
  revert outcomes
  generalize p s = result
  generalize q s' = result'
  intro outcomes
  cases outcomes with
  | ok related => exact .ok (last related)
  | error related => exact .error (last related)
  | excuse h => exact .excuse h

end Sessions

end Simulates

end Type2Glyphs
