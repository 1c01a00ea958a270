import Type2Glyphs.Hint

/-!
# Listener — what a hint hook hears of a sequence of calls

A hint hook is called until it fails.  `Listener.hearAll` lets it hear a sequence of calls and says
what it heard of them, the latest call first, and whether it is still called; a fatal failure ends
the sequence.

* `Listener.hearAll_mute`: without a hook nothing is heard;
* `Listener.hearAll_failingAt`: a hook that fails once hears everything up to then;
* `Listener.Heard.of_hearAll`: in general a hook has answered all calls that it heard, but the
  latest one perhaps.
-/

namespace Type2Glyphs

/-- A hint hook, as long as it is called, and the calls that were heard, the latest one first. -/
structure Listener where
  hook : Option HintHook
  calls : List HintCall

/-- What was heard when a fatal failure ended the load, the latest call first, and the reason. -/
structure Halt where
  calls : List HintCall
  reason : String
  deriving DecidableEq

namespace Listener

/-! ## Hearing calls -/

/-- What becomes of a listener by a call. -/
def hear (call : HintCall) (listener : Listener) : Except Halt Listener :=
  match listener.hook with
  | none => .ok listener
  | some hook =>
      match hook.failure (call :: listener.calls) with
      | none => .ok ⟨some hook, call :: listener.calls⟩
      | some (.advisory _) => .ok ⟨none, call :: listener.calls⟩
      | some (.fatal reason) => .error ⟨call :: listener.calls, reason⟩

/-- What becomes of a listener by all these calls, of which the latest one comes first. -/
def hearAll (listener : Listener) : List HintCall → Except Halt Listener
  | [] => .ok listener
  | call :: earlier => listener.hearAll earlier >>= hear call

theorem hearAll_cons {listener after : Listener} {earlier : List HintCall}
    (before : listener.hearAll earlier = .ok after) (call : HintCall) :
    listener.hearAll (call :: earlier) = after.hear call := by
  simp only [hearAll, before]
  rfl

theorem hearAll_append {listener after : Listener} {earlier : List HintCall}
    (before : listener.hearAll earlier = .ok after) (later : List HintCall) :
    listener.hearAll (later ++ earlier) = after.hearAll later := by
  induction later with
  | nil => exact before
  | cons call later ih =>
      simp only [List.cons_append, hearAll]
      rw [ih]

/-- After the load was ended nothing is heard. -/
theorem hearAll_of_suffix {listener : Listener} {halt : Halt} {earlier calls : List HintCall}
    (suffix : earlier <:+ calls) (halted : listener.hearAll earlier = .error halt) :
    listener.hearAll calls = .error halt := by
  obtain ⟨later, rfl⟩ := suffix
  induction later with
  | nil => exact halted
  | cons call later ih =>
      simp only [List.cons_append, hearAll, ih]
      rfl

/-- Without a hook nothing is heard. -/
theorem hearAll_mute (heard calls : List HintCall) :
    hearAll ⟨none, heard⟩ calls = .ok ⟨none, heard⟩ := by
  induction calls with
  | nil => rfl
  | cons call calls ih => exact hearAll_cons ih call

/-! ## One call -/

variable {hook : HintHook} {call : HintCall} {heard : List HintCall} {reason : String}

theorem hear_answered (answered : hook.failure (call :: heard) = none) :
    hear call ⟨some hook, heard⟩ = .ok ⟨some hook, call :: heard⟩ := by
  simp only [hear, answered]

theorem hear_advised (advised : hook.failure (call :: heard) = some (.advisory reason)) :
    hear call ⟨some hook, heard⟩ = .ok ⟨none, call :: heard⟩ := by
  simp only [hear, advised]

theorem hear_halted (halted : hook.failure (call :: heard) = some (.fatal reason)) :
    hear call ⟨some hook, heard⟩ = .error ⟨call :: heard, reason⟩ := by
  simp only [hear, halted]

/-- A listener keeps its hook or loses it. -/
theorem hook_of_hear {listener after : Listener} (heard : listener.hear call = .ok after) :
    after.hook = none ∨ after.hook = listener.hook := by
  simp only [hear] at heard
  split at heard
  · cases heard
    exact .inr rfl
  · next hook listening =>
      split at heard <;> cases heard
      · exact .inr listening.symm
      · exact .inl rfl

theorem hook_of_hearAll {listener after : Listener} {calls : List HintCall}
    (heard : listener.hearAll calls = .ok after) :
    after.hook = none ∨ after.hook = listener.hook := by
  induction calls generalizing after with
  | nil =>
      cases heard
      exact .inr rfl
  | cons call calls ih =>
      cases before : listener.hearAll calls with
      | error halt =>
          simp only [hearAll, before] at heard
          cases heard
      | ok last =>
          have latest : last.hear call = .ok after := (hearAll_cons before call).symm.trans heard
          rcases hook_of_hear latest with mute | kept
          · exact .inl mute
          · exact kept ▸ ih before

end Listener

/-! ## A hook that fails once -/

/-- Whether a failure ends the load. -/
def HintFailure.isFatal : HintFailure → Bool
  | .advisory _ => false
  | .fatal _ => true

/-- The hook whose call number `n` fails, counted from 0, and that leaves the outline alone. -/
def HintHook.failingAt (n : Nat) (failure : HintFailure) : HintHook :=
  ⟨fun calls => if calls.length = n + 1 then some failure else none, fun _ outline => outline⟩

namespace Listener

variable {n : Nat} {failure : HintFailure}

/-- Everything is heard as long as the call that fails has not come. -/
theorem hearAll_failingAt_of_le {calls : List HintCall} (early : calls.length ≤ n) :
    hearAll ⟨some (.failingAt n failure), []⟩ calls =
      .ok ⟨some (.failingAt n failure), calls⟩ := by
  induction calls with
  | nil => rfl
  | cons call calls ih =>
      have before : calls.length ≤ n := Nat.le_of_succ_le early
      have answered : (HintHook.failingAt n failure).failure (call :: calls) = none :=
        if_neg (Nat.ne_of_lt (Nat.lt_succ_of_le early))
      exact (hearAll_cons (ih before) call).trans (hear_answered answered)

/-- Nothing is heard after the call that fails. -/
theorem hearAll_failingAt_of_lt {calls : List HintCall} (late : n < calls.length) :
    hearAll ⟨some (.failingAt n failure), []⟩ calls =
      match failure with
      | .advisory _ => .ok ⟨none, calls.drop (calls.length - (n + 1))⟩
      | .fatal reason => .error ⟨calls.drop (calls.length - (n + 1)), reason⟩ := by
  have length : (calls.drop (calls.length - (n + 1))).length = n + 1 := by
    rw [List.length_drop]
    omega
  -- the call that fails is the latest one of the part that is heard
  have whole := List.take_append_drop (calls.length - (n + 1)) calls
  generalize calls.take (calls.length - (n + 1)) = later at whole
  generalize calls.drop (calls.length - (n + 1)) = heard at whole length
  cases heard with
  | nil => cases length
  | cons call earlier =>
      have before : hearAll ⟨some (.failingAt n failure), []⟩ earlier = _ :=
        hearAll_failingAt_of_le (Nat.le_of_eq (Nat.succ.inj length))
      have failed : (HintHook.failingAt n failure).failure (call :: earlier) = some failure :=
        if_pos length
      rw [← whole]
      cases failure with
      | advisory reason =>
          have last := (hearAll_cons before call).trans (hear_advised failed)
          calc hearAll ⟨some (.failingAt n (.advisory reason)), []⟩ (later ++ call :: earlier)
              = hearAll ⟨none, call :: earlier⟩ later := hearAll_append last later
            _ = .ok ⟨none, call :: earlier⟩ := hearAll_mute _ _
      | fatal reason =>
          have last := (hearAll_cons before call).trans (hear_halted failed)
          exact hearAll_of_suffix ⟨later, rfl⟩ last

end Listener

/-! ## Any hook -/

/-- The hook has answered each of these calls without a failure. -/
def HintHook.Answers (hook : HintHook) (calls : List HintCall) : Prop :=
  ∀ call earlier, call :: earlier <:+ calls → hook.failure (call :: earlier) = none

theorem HintHook.Answers.cons {hook : HintHook} {call : HintCall} {calls : List HintCall}
    (before : hook.Answers calls) (answered : hook.failure (call :: calls) = none) :
    hook.Answers (call :: calls) := by
  intro call' earlier suffix
  rcases List.suffix_cons_iff.1 suffix with same | inside
  · rw [same]
    exact answered
  · exact before call' earlier inside

/-- A call that failed is the latest one, since no call before it did. -/
theorem HintHook.Answers.latest {hook : HintHook} {call latest : HintCall}
    {earlier before : List HintCall} (answered : hook.Answers before) {failure : HintFailure}
    (failed : hook.failure (call :: earlier) = some failure)
    (heard : call :: earlier <:+ latest :: before) : call = latest ∧ earlier = before := by
  rcases List.suffix_cons_iff.1 heard with same | inside
  · cases same
    exact ⟨rfl, rfl⟩
  · cases (answered call earlier inside).symm.trans failed

namespace Listener

/-- What a hook can have heard: it has answered everything, or everything but the latest call. -/
inductive Heard (hook : HintHook) : Except Halt Listener → Prop
  | listening {calls : List HintCall} (answered : hook.Answers calls) :
      Heard hook (.ok ⟨some hook, calls⟩)
  | advised {call : HintCall} {earlier : List HintCall} {reason : String}
      (answered : hook.Answers earlier)
      (failed : hook.failure (call :: earlier) = some (.advisory reason)) :
      Heard hook (.ok ⟨none, call :: earlier⟩)
  | halted {call : HintCall} {earlier : List HintCall} {reason : String}
      (answered : hook.Answers earlier)
      (failed : hook.failure (call :: earlier) = some (.fatal reason)) :
      Heard hook (.error ⟨call :: earlier, reason⟩)

/-- A hook that is still called has answered everything. -/
theorem Heard.of_ok {hook : HintHook} {listener : Listener} (h : Heard hook (.ok listener)) :
    listener.hook = none ∨ listener.hook = some hook ∧ hook.Answers listener.calls := by
  cases h with
  | listening answered => exact .inr ⟨rfl, answered⟩
  | advised _ _ => exact .inl rfl

/-- The load was ended by the latest call. -/
theorem Heard.of_error {hook : HintHook} {halt : Halt} (h : Heard hook (.error halt)) :
    ∃ call earlier, halt.calls = call :: earlier ∧ hook.Answers earlier ∧
      hook.failure (call :: earlier) = some (.fatal halt.reason) := by
  cases h with
  | halted answered failed => exact ⟨_, _, rfl, answered, failed⟩

theorem Heard.of_hearAll (hook : HintHook) (calls : List HintCall) :
    Heard hook (hearAll ⟨some hook, []⟩ calls) := by
  induction calls with
  | nil => exact .listening fun _ _ suffix => nomatch List.suffix_nil.1 suffix
  | cons call calls ih =>
      simp only [hearAll]
      revert ih
      generalize hearAll ⟨some hook, []⟩ calls = before
      intro ih
      cases ih with
      -- a hook that has failed hears no more, so nothing changes
      | advised answered failed => exact .advised answered failed
      | halted answered failed => exact .halted answered failed
      | @listening heard answered =>
          change Heard hook (hear call ⟨some hook, heard⟩)
          cases failure : hook.failure (call :: heard) with
          | none =>
              rw [hear_answered failure]
              exact .listening (answered.cons failure)
          | some failed =>
              cases failed with
              | advisory reason =>
                  rw [hear_advised failure]
                  exact .advised answered failure
              | fatal reason =>
                  rw [hear_halted failure]
                  exact .halted answered failure

end Listener

end Type2Glyphs
