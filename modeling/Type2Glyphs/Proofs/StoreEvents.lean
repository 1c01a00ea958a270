import Type2Glyphs.Proofs.Law.Effect

/-!
# StoreEvents — every fetched program is released

A store of glyph programs sees one fetch and one release for each glyph and component that is drawn.
`Eval.locate` notes the fetch where it is done, so one that came before a step that fails would be
left without a release (`Effects.locate`).  The release comes last of all that is done with the
program, on whatever way it is left, so that fetches and releases are brackets that nest: `Nested`
says so by their shape, and `outstanding` by what a store would count.

A level of brackets takes a level of nesting, so no more programs are held at a time than the limit
allows, and the one of the glyph itself.
-/

namespace Type2Glyphs

/-! ## Events -/

/-- What a store of glyph programs notices. -/
inductive StoreEvent
  | fetch (glyph : GlyphId)
  | release (glyph : GlyphId)
  deriving DecidableEq

/-- What a store notices of an entry of the journal. -/
def LoadEvent.store? : LoadEvent → Option StoreEvent
  | .fetched glyph => some (.fetch glyph)
  | .released glyph => some (.release glyph)
  | _ => none

/-- What a store noticed, the earliest event first. -/
def Session.storeEvents (session : Session) : List StoreEvent :=
  (session.journal.filterMap LoadEvent.store?).reverse

theorem Session.Adds.storeEvents {events : List LoadEvent} {entries : List TraceEntry}
    {s t : Session} (h : s.Adds events entries t) :
    t.storeEvents = s.storeEvents ++ (events.filterMap LoadEvent.store?).reverse := by
  simp only [Session.storeEvents, h.journal, List.filterMap_append, List.reverse_append]

/-! ## Brackets -/

/-- Fetches and releases that nest no deeper than `depth`, of glyphs that are `known`. -/
inductive Nested (known : GlyphId → Prop) : (depth : Nat) → List StoreEvent → Prop
  | nil {depth : Nat} : Nested known depth []
  | fetch {depth : Nat} {glyph : GlyphId} {inner rest : List StoreEvent} (found : known glyph)
      (held : Nested known depth inner) (after : Nested known (depth + 1) rest) :
      Nested known (depth + 1) (.fetch glyph :: (inner ++ .release glyph :: rest))

/-- The glyphs that are held after an event, the latest one first.  Only that one can be
released. -/
def StoreEvent.held : List GlyphId → StoreEvent → Option (List GlyphId)
  | glyphs, .fetch glyph => some (glyph :: glyphs)
  | last :: glyphs, .release glyph => if glyph = last then some glyphs else none
  | [], .release _ => none

/-- The glyphs that are fetched and not yet released, the latest one first. -/
def outstanding (events : List StoreEvent) : Option (List GlyphId) :=
  events.foldlM StoreEvent.held []

namespace Nested

variable {known : GlyphId → Prop} {depth : Nat} {events events' : List StoreEvent}

theorem around {glyph : GlyphId} (found : known glyph) (held : Nested known depth events) :
    Nested known (depth + 1) (.fetch glyph :: (events ++ [.release glyph])) :=
  .fetch found held .nil

theorem deeper (h : Nested known depth events) : Nested known (depth + 1) events := by
  induction h with
  | nil => exact .nil
  | fetch found _ _ held after => exact .fetch found held after

theorem append (h : Nested known depth events) (h' : Nested known depth events') :
    Nested known depth (events ++ events') := by
  induction h with
  | nil => exact h'
  | fetch found held _ _ after =>
      simp only [List.cons_append, List.append_assoc]
      exact .fetch found held (after h')

/-- Only known glyphs are fetched and released. -/
theorem known_of_mem (h : Nested known depth events) {glyph : GlyphId}
    (member : .fetch glyph ∈ events ∨ .release glyph ∈ events) : known glyph := by
  induction h with
  | nil => simp at member
  | fetch found _ _ held after =>
      simp only [List.mem_cons, List.mem_append, StoreEvent.fetch.injEq, StoreEvent.release.injEq,
        reduceCtorEq, false_or] at member
      rcases member with (rfl | inside | behind) | (inside | rfl | behind)
      · exact found
      · exact held (.inl inside)
      · exact after (.inl behind)
      · exact held (.inr inside)
      · exact found
      · exact after (.inr behind)

/-- After brackets the same glyphs are held as before. -/
theorem held_eq (h : Nested known depth events) (glyphs : List GlyphId) :
    events.foldlM StoreEvent.held glyphs = some glyphs := by
  induction h generalizing glyphs with
  | nil => rfl
  | @fetch _ glyph inner rest _ _ _ held after =>
      have released : StoreEvent.held (glyph :: glyphs) (.release glyph) = some glyphs :=
        if_pos rfl
      calc (StoreEvent.fetch glyph :: (inner ++ .release glyph :: rest)).foldlM
            StoreEvent.held glyphs
          = (inner ++ .release glyph :: rest).foldlM StoreEvent.held (glyph :: glyphs) := rfl
        _ = (StoreEvent.release glyph :: rest).foldlM StoreEvent.held (glyph :: glyphs) := by
            simp only [List.foldlM_append, held, Option.bind_eq_bind, Option.bind_some]
        _ = rest.foldlM StoreEvent.held glyphs := by
            simp only [List.foldlM_cons, released, Option.bind_eq_bind, Option.bind_some]
        _ = some glyphs := after glyphs

/-- Where brackets are cut, the glyphs held are those from before and the ones of brackets that are
open, of which there are no more than the depth allows. -/
theorem held_take (h : Nested known depth events) (n : Nat) (glyphs : List GlyphId) :
    ∃ opened, (events.take n).foldlM StoreEvent.held glyphs = some (opened ++ glyphs) ∧
      opened.length ≤ depth := by
  induction h generalizing n glyphs with
  | nil => exact ⟨[], by simp, Nat.zero_le _⟩
  | @fetch depth glyph inner rest found held _ insideHeld after =>
      cases n with
      | zero => exact ⟨[], rfl, Nat.zero_le _⟩ -- nothing was fetched yet
      | succ n =>
          simp only [List.take_succ_cons, List.take_append]
          cases beyond : n - inner.length with
          | zero =>
              -- the cut is inside the bracket, where its glyph is held too
              obtain ⟨opened, cut, few⟩ := insideHeld n (glyph :: glyphs)
              refine ⟨opened ++ [glyph], ?_, ?_⟩
              · simpa [StoreEvent.held] using cut
              · simpa using few
          | succ n' =>
              -- the bracket is closed, and the cut is behind it
              have whole : inner.take n = inner := List.take_of_length_le (by omega)
              have closed := (around found held).held_eq glyphs
              obtain ⟨opened, cut, few⟩ := after n' glyphs
              refine ⟨opened, ?_, few⟩
              calc _ = ((StoreEvent.fetch glyph :: (inner ++ [.release glyph])) ++
                    rest.take n').foldlM StoreEvent.held glyphs := by simp [whole]
                _ = (rest.take n').foldlM StoreEvent.held glyphs := by
                    rw [List.foldlM_append, closed]; rfl
                _ = some (opened ++ glyphs) := cut

end Nested

/-! ## Programs -/

/-- The store events of the second session are those of the first one and brackets after them. -/
def Session.Brackets (font : Font) (depth : Nat) (s t : Session) : Prop :=
  ∃ events, t.storeEvents = s.storeEvents ++ events ∧ Nested font.Locates depth events

namespace Session.Brackets

variable {font : Font} {depth : Nat} {s t u : Session}

/-- Nothing that the store notices was done. -/
theorem unnoticed (same : t.storeEvents = s.storeEvents) : Brackets font depth s t :=
  ⟨[], same.trans (List.append_nil _).symm, .nil⟩

theorem trans (first : Brackets font depth s t) (next : Brackets font depth t u) :
    Brackets font depth s u := by
  obtain ⟨events, before, nested⟩ := first
  obtain ⟨events', after, nested'⟩ := next
  exact ⟨events ++ events', by rw [after, before, List.append_assoc], nested.append nested'⟩

theorem deeper (h : Brackets font depth s t) : Brackets font (depth + 1) s t := by
  obtain ⟨events, added, nested⟩ := h
  exact ⟨events, added, nested.deeper⟩

/-- A glyph that is fetched and released is one bracket more. -/
theorem fetched {glyph : GlyphId} (found : font.Locates glyph)
    (h : Between [.fetched glyph] [] (Brackets font depth) [.released glyph] [] s t) :
    Brackets font (depth + 1) s t := by
  obtain ⟨u, v, fetched, ⟨events, inner, nested⟩, released⟩ := h
  refine ⟨_, ?_, nested.around found⟩
  rw [released.storeEvents, inner, fetched.storeEvents]
  simp [LoadEvent.store?]

theorem callHook (call : HintCall) :
    Effects (Brackets font depth) (Brackets font depth) (Eval.callHook call) := by
  refine .callHook ?_ ?_ ?_ ?_
  · intro s _
    exact unnoticed rfl
  · intro s _ _ _
    exact unnoticed rfl
  · intro s _ reason _ _
    exact unnoticed rfl
  · intro s _ _ _ _
    exact unnoticed rfl

/-- A program with so many levels left fetches and releases in brackets no deeper than that. -/
theorem law (font : Font) (limit : Nat) : RecordLaw font limit (Brackets font) where
  quiet h := unnoticed (h.storeEvents.trans (List.append_nil _))
  trans := trans
  deeper := deeper
  traced h _ := unnoticed (h.storeEvents.trans (List.append_nil _))
  callHook := callHook
  fetched := fetched

end Session.Brackets

/-! ## Whole loads -/

/-- A load of a glyph that is found is one bracket, and there are no brackets without it. -/
theorem load_brackets (font : Font) (glyph : GlyphId) (settings : LoadSettings)
    (hook : Option HintHook) :
    let events := (font.load glyph settings hook).session.storeEvents
    ¬ font.Locates glyph ∧ events = [] ∨
      font.Locates glyph ∧ ∃ inner, Nested font.Locates settings.depthLimit inner ∧
        events = .fetch glyph :: (inner ++ [.release glyph]) := by
  intro events
  have fresh : (Session.initial settings hook).storeEvents = [] := rfl
  rcases (Session.Brackets.law font settings.depthLimit).load glyph hook with
    ⟨lost, quiet⟩ | ⟨found, t, ⟨u, v, fetched, ⟨inner, drawn, nested⟩, released⟩, closed⟩
  · exact .inl ⟨lost, quiet.storeEvents⟩
  · obtain ⟨last, closing, outside⟩ := closed
    cases outside -- what follows is no deeper than no bracket at all
    refine .inr ⟨found, inner, nested, ?_⟩
    simp only [events, closing, released.storeEvents, drawn, fetched.storeEvents, fresh]
    simp [LoadEvent.store?]

/-- The store sees brackets: on whatever way a load ends, every program that was fetched is released
once, the latest one first, with at most one held for each level of nesting and one for the glyph.
The glyph itself is fetched first and released last.  A glyph that is not found is neither fetched
nor released. -/
theorem load_storeEvents (font : Font) (glyph : GlyphId) (settings : LoadSettings)
    (hook : Option HintHook) :
    let events := (font.load glyph settings hook).session.storeEvents
    Nested font.Locates (settings.depthLimit + 1) events ∧
      outstanding events = some [] ∧
      (∀ n, ∃ held, outstanding (events.take n) = some held ∧
        held.length ≤ settings.depthLimit + 1) ∧
      (∀ located, font.locate glyph = .ok located →
        ∃ inner, events = .fetch glyph :: (inner ++ [.release glyph])) ∧
      (∀ missing e, font.locate missing = .error e →
        .fetch missing ∉ events ∧ .release missing ∉ events) ∧
      ∀ e, font.locate glyph = .error e → events = [] := by
  intro events
  have unknown : ∀ {missing e}, font.locate missing = .error e → ¬ font.Locates missing := by
    rintro missing e lost ⟨located, found⟩
    cases lost.symm.trans found
  have brackets : ¬ font.Locates glyph ∧ events = [] ∨
      font.Locates glyph ∧ ∃ inner, Nested font.Locates settings.depthLimit inner ∧
        events = .fetch glyph :: (inner ++ [.release glyph]) :=
    load_brackets font glyph settings hook
  have nested : Nested font.Locates (settings.depthLimit + 1) events := by
    rcases brackets with ⟨-, none⟩ | ⟨found, inner, nested, all⟩
    · exact none ▸ .nil
    · exact all ▸ .around found nested
  refine ⟨nested, nested.held_eq [], ?_, ?_, ?_, ?_⟩
  · intro n
    obtain ⟨opened, cut, few⟩ := nested.held_take n []
    rw [List.append_nil] at cut
    exact ⟨opened, cut, few⟩
  · intro located found
    rcases brackets with ⟨lost, -⟩ | ⟨-, inner, -, all⟩
    · exact absurd ⟨located, found⟩ lost
    · exact ⟨inner, all⟩
  · intro missing e lost
    exact ⟨fun member => unknown lost (nested.known_of_mem (.inl member)),
      fun member => unknown lost (nested.known_of_mem (.inr member))⟩
  · intro e lost
    rcases brackets with ⟨-, none⟩ | ⟨found, -⟩
    · exact none
    · exact absurd found (unknown lost)

/-- The font of the accented glyph with its accent lost. -/
def Font.damaged : Font :=
  { Font.accented with
    glyphs := .ofList
      [some [189, 239, 140, 141, 14], some [139, 22, 149, 159, 169, 179, 189, 199, 8, 14], none] }

theorem load_storeEvents_damaged :
    let report := Font.damaged.load ⟨0⟩ {} none
    report.result = .error (.fontData .outOfBounds) ∧
      report.session.storeEvents = [.fetch ⟨0⟩, .fetch ⟨1⟩, .release ⟨1⟩, .release ⟨0⟩] ∧
      outstanding report.session.storeEvents = some [] ∧
      (∃ inner, report.session.storeEvents = .fetch ⟨0⟩ :: (inner ++ [.release ⟨0⟩])) ∧
      .fetch ⟨2⟩ ∉ report.session.storeEvents ∧
      (Font.damaged.load ⟨2⟩ {} none).session.storeEvents = [] := by
  intro report
  have lost : Font.damaged.locate ⟨2⟩ = .error (.fontData .outOfBounds) := rfl
  obtain ⟨_, settled, _, enclosed, unknown, _⟩ := load_storeEvents Font.damaged ⟨0⟩ {} none
  obtain ⟨_, _, _, _, _, untouched⟩ := load_storeEvents Font.damaged ⟨2⟩ {} none
  exact ⟨by decide +kernel, by decide +kernel, settled, enclosed _ rfl, (unknown ⟨2⟩ _ lost).1,
    untouched _ lost⟩

end Type2Glyphs
