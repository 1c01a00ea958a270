import Mathlib.Data.List.Forall2
import Mathlib.Data.List.Induction
import Mathlib.Data.List.ModifyLast
import Type2Glyphs.Proofs.Draft.Contours

/-!
# History — a draft after any row of operations

A draft splits its points over two outlines and counts as it goes.  A `Ledger` keeps a list of
contours and nothing else of the kind.  Both refuse the same operations, and what the draft says of
itself and comes to at the end can be read off the ledger, whatever is done and in whatever order.

What a ledger holds can in turn be read off the calls that were made: which points were accepted
and where the origin lay then, which calls started contours, and which were the last to end one.
-/

namespace Type2Glyphs

/-! ## Operations and calls -/

/-- An operation on a draft. -/
inductive DraftOp
  | ensureCapacity (count : Nat)
  | addPoint (p : Point) (tag : Tag)
  | addOnCurve (p : Point)
  | startContour (p : Point)
  | closeContour
  | commit
  | setOrigin (origin : Point)

/-- The program of an operation. -/
def DraftOp.program : DraftOp → Draft.Program Unit
  | .ensureCapacity count => Draft.ensureCapacity count
  | .addPoint p tag => Draft.addPoint p tag
  | .addOnCurve p => Draft.addOnCurve p
  | .startContour p => Draft.startContour p
  | .closeContour => modify Draft.closeContour
  | .commit => modify Draft.commit
  | .setOrigin origin => modify fun draft => { draft with origin }

/-- The operations are the same, but that one may complete a component where the other one closes
a contour. -/
inductive DraftOp.Alike : DraftOp → DraftOp → Prop
  | same (op : DraftOp) : Alike op op
  | closes : Alike .commit .closeContour
  | commits : Alike .closeContour .commit

/-- An operation that was called, and how it was refused, if it was. -/
structure DraftCall where
  op : DraftOp
  refusal : Option LoadError

namespace DraftCall

/-- The point that was accepted, relative to the origin. -/
def point? : DraftCall → Option OutlinePoint
  | ⟨.addPoint p tag, none⟩ => some ⟨p, tag⟩
  | ⟨.addOnCurve p, none⟩ => some ⟨p, .on⟩
  | ⟨.startContour p, none⟩ => some ⟨p, .on⟩
  | _ => none

/-- Whether a contour was started. -/
def starts : DraftCall → Bool
  | ⟨.startContour _, none⟩ => true
  | _ => false

/-- Whether no contour is open any more. -/
def ends : DraftCall → Bool
  | ⟨.startContour _, some _⟩ => true
  | ⟨.closeContour, _⟩ => true
  | ⟨.commit, _⟩ => true
  | _ => false

/-- Where the origin lies after the call. -/
def originAfter (origin : Point) : DraftCall → Point
  | ⟨.setOrigin origin, _⟩ => origin
  | _ => origin

/-- The accepted points of a history in order, each moved by the origin that it met. -/
def placed (origin : Point) : List DraftCall → List OutlinePoint
  | [] => []
  | call :: calls =>
      (call.point?.map (.shift origin)).toList ++ placed (call.originAfter origin) calls

end DraftCall

namespace Draft

/-- The call of an operation, and the draft that it leaves behind. -/
def perform (op : DraftOp) (draft : Draft) : DraftCall × Draft :=
  match op.program draft with
  | .ok _ after => (⟨op, none⟩, after)
  | .error e after => (⟨op, some e⟩, after)

/-- The draft after a row of operations, of which some may be refused. -/
def after (ops : List DraftOp) (draft : Draft) : Draft :=
  ops.foldl (fun draft op => (draft.perform op).2) draft

/-- The calls of a row of operations. -/
def calls : List DraftOp → Draft → List DraftCall
  | [], _ => []
  | op :: ops, draft => (draft.perform op).1 :: (draft.perform op).2.calls ops

end Draft

/-! ## Ledgers -/

/-- The contours of a history. -/
structure Ledger where
  origin : Point := 0
  contours : List Contour := []
  isOpen : Bool := false

namespace Ledger

/-- All points. -/
def points (ledger : Ledger) : List OutlinePoint :=
  ledger.contours.flatten

/-- Whether there is no room for `count` more points. -/
def Full (ledger : Ledger) (count : Nat) : Prop :=
  maxPoints < ledger.points.length + count

instance (ledger : Ledger) (count : Nat) : Decidable (ledger.Full count) :=
  inferInstanceAs (Decidable (_ < _))

/-- How an operation is refused, if it is. -/
def refusal (ledger : Ledger) : DraftOp → Option LoadError
  | .ensureCapacity count => if ledger.Full count then some .outOfMemory else none
  | .addPoint _ _ =>
      if !ledger.isOpen then some (.charstring .noOpenContour)
      else if ledger.Full 1 then some .outOfMemory else none
  | .addOnCurve _ =>
      if ledger.Full 1 then some .outOfMemory
      else if !ledger.isOpen then some (.charstring .noOpenContour) else none
  | .startContour _ =>
      if maxContours ≤ ledger.contours.length ∨ ledger.Full 1 then some .outOfMemory else none
  | .closeContour | .commit | .setOrigin _ => none

/-- The ledger with a point more in its last contour. -/
def add (p : OutlinePoint) (ledger : Ledger) : Ledger :=
  { ledger with contours := ledger.contours.modifyLast (· ++ [p.shift ledger.origin]) }

/-- The ledger with a contour more. -/
def start (p : OutlinePoint) (ledger : Ledger) : Ledger :=
  { ledger with contours := ledger.contours ++ [[p.shift ledger.origin]], isOpen := true }

/-- The ledger with a call more. -/
def record (ledger : Ledger) : DraftCall → Ledger
  | ⟨.addPoint p tag, none⟩ => ledger.add ⟨p, tag⟩
  | ⟨.addOnCurve p, none⟩ => ledger.add ⟨p, .on⟩
  | ⟨.startContour p, none⟩ => ledger.start ⟨p, .on⟩
  | ⟨.startContour _, some _⟩ | ⟨.closeContour, _⟩ | ⟨.commit, _⟩ => { ledger with isOpen := false }
  | ⟨.setOrigin origin, _⟩ => { ledger with origin }
  | ⟨.ensureCapacity _, _⟩ | ⟨.addPoint _ _, some _⟩ | ⟨.addOnCurve _, some _⟩ => ledger

/-- The calls of a row of operations. -/
def calls : List DraftOp → Ledger → List DraftCall
  | [], _ => []
  | op :: ops, ledger =>
      ⟨op, ledger.refusal op⟩ :: (ledger.record ⟨op, ledger.refusal op⟩).calls ops

/-- The ledger after a history. -/
def recordAll (calls : List DraftCall) (ledger : Ledger) : Ledger :=
  calls.foldl record ledger

@[simp] theorem points_add (p : OutlinePoint) {ledger : Ledger} (some : ledger.contours ≠ []) :
    (ledger.add p).points = ledger.points ++ [p.shift ledger.origin] := by
  obtain ⟨before, last, contours⟩ := (List.eq_nil_or_concat' ledger.contours).resolve_left some
  simp [points, add, contours, List.modifyLast_concat]

@[simp] theorem length_contours_add (p : OutlinePoint) (ledger : Ledger) :
    (ledger.add p).contours.length = ledger.contours.length := by
  rcases List.eq_nil_or_concat' ledger.contours with nothing | ⟨before, last, contours⟩
  · rw [add, nothing]
    rfl
  · simp [add, contours, List.modifyLast_concat]

theorem origin_record (ledger : Ledger) (call : DraftCall) :
    (ledger.record call).origin = call.originAfter ledger.origin := by
  rcases call with ⟨_ | _ | _ | _ | _ | _ | _, _ | _⟩ <;> rfl

theorem isOpen_record (ledger : Ledger) (call : DraftCall) :
    (ledger.record call).isOpen = (call.starts || ledger.isOpen && !call.ends) := by
  rcases call with ⟨_ | _ | _ | _ | _ | _ | _, _ | _⟩ <;>
    simp [record, add, start, DraftCall.starts, DraftCall.ends]

theorem length_contours_record (ledger : Ledger) (call : DraftCall) :
    (ledger.record call).contours.length =
      ledger.contours.length + if call.starts then 1 else 0 := by
  rcases call with ⟨_ | _ | _ | _ | _ | _ | _, _ | _⟩ <;>
    simp [record, start, DraftCall.starts]

/-- A point is accepted in a contour that it starts or that is open. -/
theorem isOpen_of_accepted (ledger : Ledger) (op : DraftOp)
    (accepted : (DraftCall.point? ⟨op, ledger.refusal op⟩).isSome = true) :
    DraftCall.starts ⟨op, ledger.refusal op⟩ = true ∨ ledger.isOpen = true := by
  cases isOpen : ledger.isOpen with
  | true => exact .inr rfl
  | false =>
      left
      cases op with
      | addPoint p tag =>
          simp [refusal, isOpen, DraftCall.point?] at accepted
      | addOnCurve p =>
          by_cases full : ledger.Full 1 <;>
            simp [refusal, isOpen, full, DraftCall.point?] at accepted
      | startContour p =>
          by_cases full : maxContours ≤ ledger.contours.length ∨ ledger.Full 1
          · simp [refusal, full, DraftCall.point?] at accepted
          · simp [refusal, full, DraftCall.starts]
      | _ => simp [DraftCall.point?] at accepted

/-- A point that is accepted comes after all others. -/
theorem points_record (ledger : Ledger) (call : DraftCall)
    (room : call.point?.isSome = true → call.starts = true ∨ ledger.contours ≠ []) :
    (ledger.record call).points =
      ledger.points ++ (call.point?.map (.shift ledger.origin)).toList := by
  have added : ∀ p, call.point? = some p → call.starts = false →
      (ledger.add p).points = ledger.points ++ [p.shift ledger.origin] := by
    intro p accepted inside
    have started := room (by rw [accepted]; rfl)
    rw [inside] at started
    exact points_add p (started.resolve_left Bool.false_ne_true)
  rcases call with ⟨_ | ⟨p, tag⟩ | p | p | _ | _ | _, _ | _⟩
  case addPoint.none => exact added _ rfl rfl
  case addOnCurve.none => exact added _ rfl rfl
  case startContour.none => simp [record, start, points, DraftCall.point?]
  all_goals exact (List.append_nil _).symm

theorem recordAll_concat (ledger : Ledger) (calls : List DraftCall) (call : DraftCall) :
    ledger.recordAll (calls ++ [call]) = (ledger.recordAll calls).record call :=
  List.foldl_concat ..

/-- A ledger has as many contours as were started. -/
theorem length_contours_recordAll (calls : List DraftCall) :
    (recordAll calls {}).contours.length = calls.countP DraftCall.starts := by
  induction calls using List.reverseRecOn with
  | nil => rfl
  | append_singleton calls call ih =>
      rw [recordAll_concat, length_contours_record, ih, List.countP_append, List.countP_singleton]

/-- A contour is open exactly if none was ended since the last one was started. -/
theorem isOpen_recordAll (calls : List DraftCall) :
    (recordAll calls {}).isOpen = true ↔ ∃ earlier start later,
      calls = earlier ++ start :: later ∧ start.starts = true ∧
        ∀ call ∈ later, call.starts = false ∧ call.ends = false := by
  induction calls using List.reverseRecOn with
  | nil => simp [recordAll]
  | append_singleton calls call ih =>
      rw [recordAll_concat, isOpen_record]
      cases starts : call.starts with
      | true =>
          have none : ∀ later ∈ ([] : List DraftCall), later.starts = false ∧ later.ends = false :=
            fun _ mem => absurd mem List.not_mem_nil
          exact iff_of_true (Bool.true_or _) ⟨calls, call, [], rfl, starts, none⟩
      | false =>
          rw [Bool.false_or, Bool.and_eq_true, ih, Bool.not_eq_true']
          constructor
          · rintro ⟨⟨earlier, start, later, rfl, started, quiet⟩, ends⟩
            refine ⟨earlier, start, later ++ [call], List.append_assoc .., started, ?_⟩
            intro other mem
            rcases List.mem_append.1 mem with mem | mem
            · exact quiet other mem
            · rw [List.mem_singleton.1 mem]
              exact ⟨starts, ends⟩
          · rintro ⟨earlier, start, later, split, started, quiet⟩
            rcases List.eq_nil_or_concat' later with rfl | ⟨later, last, rfl⟩
            · -- the last call would be the one that starts the contour
              obtain ⟨rfl, same⟩ := List.append_inj' split rfl
              rw [List.singleton_inj.1 same, started] at starts
              cases starts
            · rw [← List.cons_append, ← List.append_assoc] at split
              obtain ⟨rfl, same⟩ := List.append_inj' split rfl
              have heard := quiet last (List.mem_append_right _ List.mem_cons_self)
              rw [List.singleton_inj.1 same]
              refine ⟨⟨earlier, start, later, rfl, started, ?_⟩, heard.2⟩
              exact fun other mem => quiet other (List.mem_append_left _ mem)

/-- The ledger does not tell the ways to end a contour apart. -/
theorem alike {ops ops' : List DraftOp} (h : List.Forall₂ DraftOp.Alike ops ops')
    (ledger : Ledger) :
    (ledger.calls ops').map DraftCall.refusal = (ledger.calls ops).map DraftCall.refusal ∧
      ledger.recordAll (ledger.calls ops') = ledger.recordAll (ledger.calls ops) := by
  induction h generalizing ledger with
  | nil => exact ⟨rfl, rfl⟩
  | @cons op op' ops ops' first rest ih =>
      have refused : ledger.refusal op' = ledger.refusal op := by cases first <;> rfl
      have recorded : ledger.record ⟨op', ledger.refusal op'⟩ =
          ledger.record ⟨op, ledger.refusal op⟩ := by cases first <;> rfl
      obtain ⟨refusals, last⟩ := ih (ledger.record ⟨op, ledger.refusal op⟩)
      constructor
      · rw [calls, calls, List.map_cons, List.map_cons, recorded, refusals, refused]
      · rw [calls, calls, recordAll, recordAll, List.foldl_cons, List.foldl_cons, recorded]
        exact last

end Ledger

/-! ## Drafts and their ledgers -/

namespace Draft

/-- The draft holds the contours of the ledger. -/
structure Matches (draft : Draft) (ledger : Ledger) : Prop where
  held : ∃ parts, draft.Holds parts ∧ parts.contours = ledger.contours
  isOpen : draft.isOpen = ledger.isOpen
  origin : draft.origin = ledger.origin
  contourCount : draft.contourCount = ledger.contours.length
  contours_le : draft.contourCount ≤ maxContours

namespace Matches

variable {draft : Draft} {ledger : Ledger}

theorem pointCount (h : draft.Matches ledger) : draft.pointCount = ledger.points.length := by
  obtain ⟨parts, holds, contours⟩ := h.held
  rw [holds.pointCount, Parts.points, contours]
  rfl

theorem full_iff (h : draft.Matches ledger) (count : Nat) :
    ledger.Full count ↔ maxPoints < draft.pointCount + count := by
  rw [Ledger.Full, h.pointCount]

theorem contours_ne_nil (h : draft.Matches ledger) (isOpen : draft.isOpen = true) :
    ledger.contours ≠ [] := by
  obtain ⟨parts, holds, contours⟩ := h.held
  obtain ⟨contour, pending⟩ := holds.pending_of_isOpen isOpen
  rw [← contours]
  simp [Parts.contours, Parts.current, pending]

/-! ### Changes -/

theorem add (h : draft.Matches ledger) (isOpen : draft.isOpen = true)
    (room : draft.pointCount < maxPoints) (p : Point) (tag : Tag) :
    (draft.add p tag).Matches (ledger.add ⟨p, tag⟩) := by
  obtain ⟨parts, holds, contours⟩ := h.held
  obtain ⟨contour, pending⟩ := holds.pending_of_isOpen isOpen
  have extended : (draft.add p tag).Holds (parts.extend [⟨p + draft.origin, tag⟩]) :=
    holds.extend isOpen [⟨p + draft.origin, tag⟩] room
  refine ⟨⟨_, extended, ?_⟩, h.isOpen, h.origin, ?_, h.contours_le⟩
  · -- the open contour is the last one
    have open_last : ledger.contours = parts.done ++ parts.now ++ [contour] := by
      rw [← contours, Parts.contours, Parts.current, pending]
      simp
    rw [Ledger.add, open_last, List.modifyLast_concat, Parts.contours,
      Parts.current_extend pending, h.origin, List.append_assoc]
    rfl
  · rw [Ledger.length_contours_add]
    exact h.contourCount

theorem closeContour (h : draft.Matches ledger) :
    draft.closeContour.Matches { ledger with isOpen := false } := by
  obtain ⟨parts, holds, contours⟩ := h.held
  refine ⟨⟨_, holds.closeContour, ?_⟩, isOpen_closeContour draft, ?_, ?_, ?_⟩
  · rw [Parts.contours_close]
    exact contours
  · rw [origin_closeContour]
    exact h.origin
  · rw [contourCount_closeContour]
    exact h.contourCount
  · rw [contourCount_closeContour]
    exact h.contours_le

theorem commit (h : draft.Matches ledger) :
    draft.commit.Matches { ledger with isOpen := false } := by
  obtain ⟨parts, holds, contours⟩ := h.held
  refine ⟨⟨_, holds.commit, ?_⟩, holds.commit.isOpen, ?_, ?_, ?_⟩
  · rw [Parts.contours_commit]
    exact contours
  · rw [origin_commit]
    exact h.origin
  · rw [contourCount_commit]
    exact h.contourCount
  · rw [contourCount_commit]
    exact h.contours_le

theorem start (h : draft.Matches ledger) (contourRoom : draft.contourCount < maxContours)
    (room : draft.pointCount < maxPoints) (p : Point) :
    (draft.closeContour.openContour.add p .on).Matches (ledger.start ⟨p, .on⟩) := by
  have closed := h.closeContour
  obtain ⟨parts, holds, contours⟩ := closed.held
  have here : draft.closeContour.pointCount < maxPoints := by
    rw [pointCount_closeContour]
    exact room
  have pending := holds.pending_of_closed (isOpen_closeContour draft)
  refine ⟨⟨_, holds.start (isOpen_closeContour draft) here
    ⟨p + draft.closeContour.origin, .on⟩, ?_⟩, rfl, closed.origin, ?_, ?_⟩
  · rw [Parts.contours, Parts.current_start pending, closed.origin, ← List.append_assoc]
    exact congrArg (· ++ _) contours
  · have count := closed.contourCount
    simpa [Ledger.start, Draft.openContour, Draft.add, Draft.push] using count
  · simpa [Draft.openContour, Draft.add, Draft.push] using Nat.succ_le_of_lt contourRoom

/-- Every operation is refused as the ledger says, and is recorded in it. -/
theorem perform (h : draft.Matches ledger) (op : DraftOp) :
    (draft.perform op).1 = ⟨op, ledger.refusal op⟩ ∧
      (draft.perform op).2.Matches (ledger.record ⟨op, ledger.refusal op⟩) := by
  have one := h.full_iff 1
  cases op with
  | ensureCapacity count =>
      simp only [Draft.perform, DraftOp.program, ensureCapacity_apply, Ledger.refusal,
        h.full_iff count]
      by_cases full : maxPoints < draft.pointCount + count
      · simp only [if_pos full, true_and]
        exact h
      · simp only [if_neg full, true_and]
        exact h
  | addPoint p tag =>
      simp only [Draft.perform, DraftOp.program, addPoint_apply, Ledger.refusal, one, ← h.isOpen]
      cases isOpen : draft.isOpen with
      | false => exact ⟨rfl, h⟩
      | true =>
          by_cases full : maxPoints ≤ draft.pointCount
          · simp only [if_pos full, if_pos (Nat.lt_succ_of_le full)]
            exact ⟨rfl, h⟩
          · simp only [if_neg full, if_neg (fun more => full (Nat.le_of_lt_succ more))]
            exact ⟨rfl, h.add isOpen (Nat.lt_of_not_le full) p tag⟩
  | addOnCurve p =>
      simp only [Draft.perform, DraftOp.program, addOnCurve_apply, Ledger.refusal, one, ← h.isOpen]
      by_cases full : maxPoints < draft.pointCount + 1
      · simp only [if_pos full, true_and]
        exact h
      · simp only [if_neg full]
        cases isOpen : draft.isOpen with
        | false => exact ⟨rfl, h⟩
        | true => exact ⟨rfl, h.add isOpen (by omega) p .on⟩
  | startContour p =>
      simp only [Draft.perform, DraftOp.program, startContour_apply, Ledger.refusal, one,
        ← h.contourCount]
      by_cases full : maxContours ≤ draft.contourCount ∨ maxPoints < draft.pointCount + 1
      · simp only [if_pos full, true_and]
        exact h.closeContour
      · simp only [if_neg full, true_and]
        exact h.start (by omega) (by omega) p
  | closeContour => exact ⟨rfl, h.closeContour⟩
  | commit => exact ⟨rfl, h.commit⟩
  | setOrigin origin =>
      obtain ⟨parts, holds, contours⟩ := h.held
      exact ⟨rfl, ⟨parts, { holds with }, contours⟩, h.isOpen, rfl, h.contourCount, h.contours_le⟩

/-- The calls of any row of operations are those of the ledger, and are recorded in it. -/
theorem run (h : draft.Matches ledger) (ops : List DraftOp) :
    draft.calls ops = ledger.calls ops ∧
      (draft.after ops).Matches (ledger.recordAll (draft.calls ops)) := by
  induction ops generalizing draft ledger with
  | nil => exact ⟨rfl, h⟩
  | cons op ops ih =>
      obtain ⟨call, next⟩ := h.perform op
      obtain ⟨calls, last⟩ := ih next
      constructor
      · rw [Draft.calls, Ledger.calls, call, calls]
      · rw [Draft.calls, call]
        exact last

end Matches

theorem matches_empty : Matches {} {} where
  held := ⟨.none, ⟨rfl, rfl, rfl, rfl, rfl, Nat.zero_le _, rfl, nofun⟩, rfl⟩
  isOpen := rfl
  origin := rfl
  contourCount := rfl
  contours_le := Nat.zero_le _

/-! ### What can be read off a ledger -/

namespace Matches

variable {draft draft' : Draft} {ledger : Ledger}

theorem box (h : draft.Matches ledger) :
    draft.box = Box.around (ledger.points.map OutlinePoint.position) := by
  obtain ⟨parts, holds, contours⟩ := h.held
  rw [holds.box, Parts.points, contours]
  rfl

theorem nonempty (h : draft.Matches ledger) : ∀ contour ∈ ledger.contours, contour ≠ [] := by
  obtain ⟨parts, holds, contours⟩ := h.held
  rw [← contours]
  exact holds.nonempty

theorem finish (h : draft.Matches ledger) :
    draft.finish =
      (.ofContours ledger.contours, (Outline.ofContours ledger.contours).controlBox) := by
  obtain ⟨parts, holds, contours⟩ := h.held
  rw [← contours]
  exact Prod.ext holds.finish holds.finish_box

/-- The points of the ledger are the accepted ones. -/
theorem placed (h : draft.Matches ledger) (ops : List DraftOp) :
    (ledger.recordAll (draft.calls ops)).points =
      ledger.points ++ DraftCall.placed ledger.origin (draft.calls ops) := by
  induction ops generalizing draft ledger with
  | nil => exact (List.append_nil _).symm
  | cons op ops ih =>
      obtain ⟨call, next⟩ := h.perform op
      have later := ih next
      have here := ledger.points_record ⟨op, ledger.refusal op⟩ fun accepted =>
        (ledger.isOpen_of_accepted op accepted).imp_right fun isOpen =>
          h.contours_ne_nil (h.isOpen.trans isOpen)
      rw [Draft.calls, DraftCall.placed, call]
      rw [here, Ledger.origin_record, List.append_assoc] at later
      exact later

end Matches

/-! ## Histories -/

/-- What a draft says of itself, and comes to when it is finished, is what the calls say. -/
structure Records (draft : Draft) (calls : List DraftCall) : Prop where
  pointCount : draft.pointCount = calls.countP (·.point?.isSome)
  points_le : draft.pointCount ≤ maxPoints
  contourCount : draft.contourCount = calls.countP DraftCall.starts
  contours_le : draft.contourCount ≤ maxContours
  isOpen : draft.isOpen = true ↔ ∃ earlier start later, calls = earlier ++ start :: later ∧
    start.starts = true ∧ ∀ call ∈ later, call.starts = false ∧ call.ends = false
  box : draft.box = Box.around ((DraftCall.placed 0 calls).map OutlinePoint.position)
  /-- All accepted points, and no others, in the order of the calls. -/
  points : draft.finish.1.points.toList = DraftCall.placed 0 calls
  /-- The contours that were started, each up to its last point. -/
  outline : draft.finish.1 = .ofContours (Ledger.recordAll calls {}).contours
  contours : draft.finish.1.contours = (Ledger.recordAll calls {}).contours
  nonempty : ∀ contour ∈ draft.finish.1.contours, contour ≠ []
  covered : draft.finish.1.contours.flatten = draft.finish.1.points.toList
  increasing : draft.finish.1.ends.toList.Pairwise (· < ·)
  finish_box : draft.finish.2 = draft.finish.1.controlBox

theorem length_placed (origin : Point) (calls : List DraftCall) :
    (DraftCall.placed origin calls).length = calls.countP (·.point?.isSome) := by
  induction calls generalizing origin with
  | nil => rfl
  | cons call calls ih =>
      rw [DraftCall.placed, List.length_append, ih, List.countP_cons, Nat.add_comm]
      cases call.point? <;> rfl

/-- Whatever is done to an empty draft, it records the calls. -/
theorem records_calls (ops : List DraftOp) :
    (after ops {}).Records (calls ops {}) := by
  obtain ⟨_, last⟩ := matches_empty.run ops
  have placed : (Ledger.recordAll (calls ops {}) {}).points =
      DraftCall.placed 0 (calls ops {}) := matches_empty.placed ops
  have outline : (after ops {}).finish.1 =
      .ofContours (Ledger.recordAll (calls ops {}) {}).contours := by rw [last.finish]
  have contours := Outline.contours_ofContours last.nonempty
  have points : (after ops {}).finish.1.points.toList = DraftCall.placed 0 (calls ops {}) := by
    rw [outline, ← placed]
    rfl
  rw [← outline] at contours
  refine ⟨?_, ?_, ?_, last.contours_le, ?_, ?_, points, outline, contours, ?_, ?_, ?_, ?_⟩
  · rw [last.pointCount, placed, length_placed]
  · obtain ⟨parts, holds, _⟩ := last.held
    exact holds.room
  · rw [last.contourCount, Ledger.length_contours_recordAll]
  · rw [last.isOpen]
    exact Ledger.isOpen_recordAll _
  · rw [last.box, placed]
  · rw [contours]
    exact last.nonempty
  · rw [contours, points, ← placed]
    rfl
  · rw [outline]
    exact Outline.pairwise_endsFrom 0 last.nonempty
  · rw [last.finish]

/-- A draft refuses the operations that a list of contours has no place for, and records all others.
Whether contours are closed or components completed makes no difference to what it comes to. -/
theorem after_history (ops : List DraftOp) :
    calls ops {} = Ledger.calls ops {} ∧ (after ops {}).Records (calls ops {}) ∧
      ∀ ops', List.Forall₂ DraftOp.Alike ops ops' →
        (calls ops' {}).map DraftCall.refusal = (calls ops {}).map DraftCall.refusal ∧
        (after ops' {}).finish = (after ops {}).finish ∧
        (after ops' {}).pointCount = (after ops {}).pointCount ∧
        (after ops' {}).contourCount = (after ops {}).contourCount ∧
        (after ops' {}).isOpen = (after ops {}).isOpen ∧
        (after ops' {}).box = (after ops {}).box := by
  obtain ⟨refusals, last⟩ := matches_empty.run ops
  refine ⟨refusals, records_calls ops, ?_⟩
  intro ops' alike
  obtain ⟨refusals', last'⟩ := matches_empty.run ops'
  obtain ⟨same, ledgers⟩ := Ledger.alike alike {}
  -- both drafts match one ledger, so whatever can be read off it agrees
  rw [refusals', ledgers, ← refusals] at last'
  refine ⟨?_, ?_, ?_, ?_, ?_, ?_⟩
  · rw [refusals, refusals', same]
  · rw [last.finish, last'.finish]
  · rw [last.pointCount, last'.pointCount]
  · rw [last.contourCount, last'.contourCount]
  · rw [last.isOpen, last'.isOpen]
  · rw [last.box, last'.box]

theorem after_history_moved :
    let ops : List DraftOp := [.startContour ⟨1, 1⟩, .addOnCurve ⟨1, 0⟩, .commit,
      .setOrigin ⟨1, 0⟩, .addOnCurve 0, .startContour 0]
    let ops' : List DraftOp := [.startContour ⟨1, 1⟩, .addOnCurve ⟨1, 0⟩, .closeContour,
      .setOrigin ⟨1, 0⟩, .addOnCurve 0, .startContour 0]
    List.Forall₂ DraftOp.Alike ops ops' ∧
      (after ops' {}).finish.1 = ⟨#[⟨⟨1, 1⟩, .on⟩, ⟨⟨1, 0⟩, .on⟩, ⟨⟨1, 0⟩, .on⟩], #[1, 2]⟩ ∧
      (after ops' {}).finish = (after ops {}).finish := by
  intro ops ops'
  have alike : List.Forall₂ DraftOp.Alike ops ops' :=
    .cons (.same _) <| .cons (.same _) <| .cons .closes <| .cons (.same _) <| .cons (.same _) <|
      .cons (.same _) .nil
  exact ⟨alike, by decide +kernel, ((after_history ops).2.2 ops' alike).2.1⟩

end Draft

end Type2Glyphs
