import Type2Glyphs.Proofs.Kinds.Session
import Type2Glyphs.Proofs.Law.Growth
import Type2Glyphs.Proofs.Law.Pair

/-!
# Evaluate — programs on operands of either kind

Every program does the same with whole numbers and with 16.16 numbers of the same values, as long as
the whole numbers that it computes are short.  What it computes is read off the trace, which lists
the operators with the stacks that they found.

* `Session.ShortSince` says that the whole numbers computed between two sessions are short;
* `Exchangeable` is the property of programs that is handed on from step to step, and
  `Eval.evaluate_exchanged` says so of all programs.
-/

namespace Type2Glyphs

open Outcome

/-! ## What was computed -/

/-- What the operator of an entry has computed of whole numbers or of 16.16 numbers. -/
def TraceEntry.result? : TraceEntry → Option Operand
  | .operator _ (.stack op) stack => op.result? stack
  | _ => none

/-- What was computed is not a whole number of more than 16 bits. -/
def TraceEntry.Short (entry : TraceEntry) : Prop :=
  ∀ result ∈ entry.result?, result.Short

instance : DecidablePred TraceEntry.Short :=
  fun entry => inferInstanceAs (Decidable (∀ result ∈ entry.result?, result.Short))

/-- What was computed between the first session and the second one is short. -/
def Session.ShortSince (s t : Session) : Prop :=
  ∀ entries, t.trace = entries ++ s.trace → ∀ entry ∈ entries, entry.Short

namespace Session.ShortSince

variable {s t u : Session} {entry : TraceEntry}

theorem of_append {entries : List TraceEntry} (added : t.trace = entries ++ s.trace)
    (short : ∀ entry ∈ entries, entry.Short) : s.ShortSince t := by
  intro entries' added'
  have same : entries' = entries := List.append_cancel_right (added'.symm.trans added)
  rw [same]
  exact short

theorem before (h : s.ShortSince u) (grows : t.Grows u) : s.ShortSince t := by
  obtain ⟨later, trace⟩ := grows.trace
  intro entries added entry member
  refine h (later ++ entries) ?_ entry (List.mem_append_right _ member)
  rw [← trace, added, List.append_assoc]

theorem after (h : s.ShortSince u) (grows : s.Grows t) : t.ShortSince u := by
  obtain ⟨earlier, trace⟩ := grows.trace
  intro entries added entry member
  refine h (entries ++ earlier) ?_ entry (List.mem_append_left _ member)
  rw [added, ← trace, List.append_assoc]

/-- An operator that was recorded first of all has computed something short. -/
theorem first (h : s.ShortSince t) (grows : (s.record entry).Grows t) : entry.Short :=
  h.before grows [entry] rfl entry (List.mem_singleton.2 rfl)

end Session.ShortSince

/-! ## Programs -/

/-- The program only adds to the records, and from sessions that are equal but for the kinds of
operands it comes to the same value or error in such sessions, if what it computes is short. -/
structure Exchangeable {α : Type} (p : Eval α) : Prop where
  grows : Effects Session.Grows Session.Grows p
  agree : ∀ ⦃s s' : Session⦄, s.Exchanged s' → s.ShortSince (finalSession (p s)) →
    s'.ShortSince (finalSession (p s')) → Agree (fun _ => False) Session.Exchanged (p s) (p s')

namespace Exchangeable

open Session Eval

variable {α β : Type} {p : Eval α} {k : α → Eval β} {depth : Nat} {op : Operator}

theorem of_simulates (grows : Effects Grows Grows p)
    (steps : Simulates (fun _ => False) Exchanged p p) : Exchangeable p :=
  ⟨grows, fun _ _ related _ _ => steps related⟩

theorem bind (first : Exchangeable p) (next : ∀ a, Exchangeable (k a)) :
    Exchangeable (p >>= k) where
  grows := Grows.operatorLaw.bind first.grows fun a => (next a).grows
  agree := by
    intro s s' related short short'
    have grows : s.Grows (finalSession (p s)) := Grows.final first.grows s
    have grows' : s'.Grows (finalSession (p s')) := Grows.final first.grows s'
    have agree := first.agree related
    simp only [bind_apply] at short short' ⊢
    revert grows grows' agree short short'
    generalize p s = result
    generalize p s' = result'
    intro short short' grows grows' agree
    -- what comes after the first part in a run adds to the records of the first part
    have early : s.ShortSince (finalSession result) := by
      cases result with
      | error e t => exact short
      | ok a t => exact short.before (Grows.final (next a).grows t)
    have early' : s'.ShortSince (finalSession result') := by
      cases result' with
      | error e t => exact short'
      | ok a t => exact short'.before (Grows.final (next a).grows t)
    cases agree early early' with
    | excuse impossible => exact impossible.elim
    | error related => exact .error related
    | ok related => exact (next _).agree related (short.after grows) (short'.after grows')

/-! ## Operators -/

theorem grows_traced (grows : Effects Grows Grows p) : Effects Grows Grows (traced depth op p) :=
  Grows.operatorLaw.bind (.change fun s => Grows.record s _) fun _ => grows

/-- Operators are recorded with the operands that they find. -/
theorem traced_of_simulates (grows : Effects Grows Grows p)
    (steps : Simulates (fun _ => False) Exchanged p p) : Exchangeable (traced depth op p) :=
  of_simulates (grows_traced grows) fun _ _ related => steps (related.record _ _)

/-- A stack operator computes what its entry of the trace says. -/
theorem traced_stack (depth : Nat) (op : StackOp) :
    Exchangeable (traced depth (.stack op) (changeStack op.apply)) where
  grows := grows_traced (Grows.operatorLaw.changeStack _)
  agree := by
    intro s s' related short short'
    have grows := Grows.final (Grows.operatorLaw.changeStack op.apply)
    -- the operator is the first entry after the session that it starts from
    have result := short.first (grows _)
    have result' := short'.first (grows _)
    exact (related.record _ _).agree_changeStack
      (op.apply_sameValues related.machine.stack result result')

/-- Operators that run no other program. -/
theorem traced_execute {font : Font} {limit : Nat} {nested : Option Evaluator} {frame : Frame}
    (alone : op.nests = false) (unread : Bytes) :
    Exchangeable (traced frame.depth op (execute font limit nested frame op unread)) := by
  have grows : Effects Grows Grows (execute font limit nested frame op unread) :=
    Grows.operatorLaw.execute alone unread
  have law := Exchanged.endingLaw (fun _ => False)
  cases calculates : op.calculates with
  | false => exact traced_of_simulates grows (law.execute alone calculates unread)
  | true =>
      cases op with
      | stack op =>
          simp only [execute, traced_bind]
          refine (traced_stack _ op).bind fun _ => ?_
          exact of_simulates (Grows.operatorLaw.pure _) (law.pure _)
      | put => exact traced_of_simulates grows (Exchanged.put.bind fun _ => law.pure _)
      | get => exact traced_of_simulates grows (Exchanged.fetch.bind fun _ => law.pure _)
      | _ => cases calculates

/-! ## Programs -/

/-- Of two evaluations of one program in one font it is enough to look at the first one. -/
theorem pairLaw (font : Font) (limit : Nat) :
    PairLaw font font limit (fun _ _ => True) fun {_} _ p q => q = p ∧ Exchangeable p := by
  have growth := Grows.operatorLaw
  have closing := (Grows.programLaw font limit).closingLaw 0
  have law := Exchanged.endingLaw (fun _ => False)
  refine
    { globalSubrs := rfl
      deeper := fun _ => trivial
      pure := fun a => ⟨rfl, of_simulates (growth.pure a) (law.pure a)⟩
      throw := fun e => ⟨rfl, of_simulates (growth.throw e) (law.throw e)⟩
      bind := ?bind
      push := fun value => ⟨rfl, of_simulates (growth.changeStack _) (law.push value)⟩
      missing := fun _ e => ⟨rfl, traced_of_simulates (growth.throw e) (law.throw e)⟩
      popped := fun _ _ _ => ⟨rfl, traced_of_simulates (growth.popOperand _) law.popInt⟩
      alone := ?alone
      endchar := ?endchar
      seac := ?seac }
  case bind =>
    rintro α β ends ends' p _ k l ⟨rfl, first⟩ next -
    have same : l = k := funext fun a => (next a).1
    rw [same]
    exact ⟨rfl, first.bind fun a => (next a).2⟩
  case alone =>
    intro levels frame nested nested' op alone _ unread
    rw [execute_of_alone alone unread]
    exact ⟨rfl, traced_execute alone unread⟩
  case endchar =>
    intro levels frame _ below
    -- components have machines of their own, so all that matters is that they add to the records
    have deeper := fun lower same frame program => (below lower same frame program trivial).2.grows
    exact ⟨rfl, traced_of_simulates (closing.endchar fun accent => Grows.compose deeper accent)
      (law.endchar fun accent => Exchanged.compose font limit levels frame accent)⟩
  case seac =>
    intro levels frame _ below
    have deeper := fun lower same frame program => (below lower same frame program trivial).2.grows
    exact ⟨rfl, traced_of_simulates (closing.seac fun accent => Grows.compose deeper accent)
      (law.seac fun accent => Exchanged.compose font limit levels frame accent)⟩

end Exchangeable

namespace Eval

/-- From sessions that are equal but for the kinds of operands, every program comes to the same
value or error in such sessions, if the whole numbers that it computes in either run are short. -/
theorem evaluate_exchanged (font : Font) (limit levels : Nat) (frame : Frame) (program : Bytes)
    {s s' : Session} (exchanged : s.Exchanged s')
    (short : s.ShortSince (finalSession (evaluate font limit levels frame program s)))
    (short' : s'.ShortSince (finalSession (evaluate font limit levels frame program s'))) :
    Agree (fun _ => False) Session.Exchanged (evaluate font limit levels frame program s)
      (evaluate font limit levels frame program s') :=
  ((Exchangeable.pairLaw font limit).evaluate trivial program).2.agree exchanged short short'

/-- A font whose only subroutine moves the current point. -/
def movingFont : Font where
  glyphs := .ofList []
  globalSubrs := ⟨1, 1, [1, 5], [144, 145, 21, 14]⟩
  subfonts := [{}]

/-- The number of the subroutine is computed from an operand of either kind. -/
theorem evaluate_exchanged_number :
    ∃ ending t t',
      evaluate movingFont 1 1 ⟨{}, false, 0⟩ [251, 2, 12, 10, 29]
        { machine := { stack := ⟨[.int 3]⟩ } } = .ok ending t ∧
      evaluate movingFont 1 1 ⟨{}, false, 0⟩ [251, 2, 12, 10, 29]
        { machine := { stack := ⟨[.fixed (.ofInt 3)]⟩ } } = .ok ending t' ∧
      t.machine.position = ⟨.ofInt 5, .ofInt 6⟩ ∧ t.Exchanged t' := by
  have exchanged : Session.Exchanged { machine := { stack := ⟨[.int 3]⟩ } }
      { machine := { stack := ⟨[.fixed (.ofInt 3)]⟩ } } :=
    ⟨⟨.cons (.fixed (by decide)) .nil, fun _ => .refl _, rfl⟩, rfl⟩
  have agree := evaluate_exchanged movingFont 1 1 ⟨{}, false, 0⟩ [251, 2, 12, 10, 29] exchanged
    (.of_append (List.append_nil _).symm (by decide +kernel))
    (.of_append (List.append_nil _).symm (by decide +kernel))
  have moved : (match evaluate movingFont 1 1 ⟨{}, false, 0⟩ [251, 2, 12, 10, 29]
      { machine := { stack := ⟨[.int 3]⟩ } } with
      | .ok _ t => some t.machine.position
      | .error _ _ => none) = some ⟨.ofInt 5, .ofInt 6⟩ := by decide +kernel
  revert moved agree
  generalize evaluate movingFont 1 1 ⟨{}, false, 0⟩ [251, 2, 12, 10, 29]
    { machine := { stack := ⟨[.int 3]⟩ } } = result
  generalize evaluate movingFont 1 1 ⟨{}, false, 0⟩ [251, 2, 12, 10, 29]
    { machine := { stack := ⟨[.fixed (.ofInt 3)]⟩ } } = result'
  intro agree moved
  cases agree with
  | ok related => exact ⟨_, _, _, rfl, rfl, Option.some.inj moved, related⟩
  | error => cases moved
  | excuse impossible => exact impossible.elim

end Eval

end Type2Glyphs
