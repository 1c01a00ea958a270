import Type2Glyphs.Fault

/-!
# Faults — results that may be faults

Tables and tokens are read step by step, and the first step that finds a fault is the last one.
These are the facts about such results that do not depend on what the faults are.
-/

namespace Type2Glyphs

variable {ε ε' α β : Type}

instance instDecidableEqExcept [DecidableEq ε] [DecidableEq α] : DecidableEq (Except ε α)
  | .ok a, .ok b => decidable_of_iff (a = b) (by simp)
  | .error e, .error e' => decidable_of_iff (e = e') (by simp)
  | .ok _, .error _ => isFalse nofun
  | .error _, .ok _ => isFalse nofun

theorem ok_of_isOk {result : Except ε α} (h : result.isOk = true) : ∃ a, result = .ok a := by
  cases result with
  | ok a => exact ⟨a, rfl⟩
  | error e => cases h

/-- Two steps succeed together exactly when the second one does with what the first one gives. -/
theorem Except.bind_eq_ok {first : Except ε α} {next : α → Except ε β} {b : β} :
    (first >>= next) = .ok b ↔ ∃ a, first = .ok a ∧ next a = .ok b := by
  cases first with
  | error fault =>
      constructor
      · intro h
        cases h
      · rintro ⟨_, impossible, _⟩
        cases impossible
  | ok a => exact ⟨fun h => ⟨a, rfl, h⟩, fun ⟨_, same, h⟩ => Except.ok.inj same ▸ h⟩

theorem Except.mapError_eq_ok {wrap : ε → ε'} {result : Except ε α} {a : α} :
    result.mapError wrap = .ok a ↔ result = .ok a := by
  cases result with
  | error e =>
      constructor <;> intro h <;> cases h
  | ok b =>
      constructor <;> rintro ⟨⟩ <;> rfl

theorem FontDataFault.demand_eq_ok {result : Option α} {value : α} :
    FontDataFault.demand result = .ok value ↔ result = some value := by
  cases result <;> simp [FontDataFault.demand]

end Type2Glyphs
