import Type2Glyphs.Proofs.Law.Effect

/-!
# Growth — records are only added to

Whatever programs do, they forget nothing of what the journal and the trace say.
-/

namespace Type2Glyphs

/-- The records of the second session are those of the first one, with some entries more. -/
structure Session.Grows (s t : Session) : Prop where
  journal : s.journal <:+ t.journal
  trace : s.trace <:+ t.trace

namespace Session.Grows

variable {s t u : Session}

theorem refl (s : Session) : s.Grows s :=
  ⟨List.suffix_refl _, List.suffix_refl _⟩

theorem trans (first : s.Grows t) (next : t.Grows u) : s.Grows u :=
  ⟨first.journal.trans next.journal, first.trace.trans next.trace⟩

theorem of_adds {events : List LoadEvent} {entries : List TraceEntry}
    (h : s.Adds events entries t) : s.Grows t :=
  ⟨⟨events, h.journal.symm⟩, ⟨entries, h.trace.symm⟩⟩

theorem note (s : Session) (event : LoadEvent) : s.Grows (s.note event) :=
  ⟨List.suffix_cons _ _, List.suffix_refl _⟩

theorem record (s : Session) (entry : TraceEntry) : s.Grows (s.record entry) :=
  ⟨List.suffix_refl _, List.suffix_cons _ _⟩

theorem between {events events' : List LoadEvent} {entries entries' : List TraceEntry}
    (h : Between events entries Grows events' entries' s t) : s.Grows t := by
  obtain ⟨u, v, before, inner, after⟩ := h
  exact (of_adds before).trans (inner.trans (of_adds after))

theorem callHook (call : HintCall) : Effects Grows Grows (Eval.callHook call) :=
  .callHook (fun s _ => .refl s) (fun s _ _ _ => .note s _)
    (fun s _ _ _ _ => (note s _).trans ⟨List.suffix_cons _ _, List.suffix_refl _⟩)
    fun s _ _ _ _ => .note s _

theorem law (font : Font) (limit : Nat) : RecordLaw font limit fun _ => Grows where
  quiet h := of_adds h
  trans := trans
  deeper h := h
  traced h _ := of_adds h
  callHook := callHook
  fetched _ := between

/-- Operators that run no other program only add to the records.  No font matters to them. -/
theorem operatorLaw : OperatorLaw fun {_} p => Effects Grows Grows p :=
  ((law ⟨.ofList [], .empty, [], none, none, 1000, none⟩ 0).effectLaw.localLaw 0).operatorLaw

theorem programLaw (font : Font) (limit : Nat) :
    ProgramLaw font limit fun _ {_} p => Effects Grows Grows p :=
  (law font limit).effectLaw.programLaw

/-- All programs one level down only add to the records. -/
theorem below {font : Font} {limit levels depth : Nat} (deep : depth + levels = limit) :
    ProgramLaw.Below (fun _ {_} p => Effects Grows Grows p) font limit levels depth :=
  fun _ _ _ program _ => (programLaw font limit).evaluate (by omega) program

/-- Components only add to the records if the programs at all levels below do, however deeply these
are nested. -/
theorem drawComponents {font : Font} {limit levels depth : Nat}
    (below : ∀ lower, levels = lower + 1 → ∀ frame program,
      Effects Grows Grows (Eval.evaluate font limit lower frame program))
    (components : List Component) : Effects Grows Grows
      (Eval.drawComponents font limit (Eval.below font limit levels) depth components) := by
  have step := operatorLaw
  -- the levels that count are those of one component
  have law := programLaw font (depth + (0 + 1))
  cases levels with
  | zero => exact step.throw _
  | succ lower =>
      refine step.bind (law.commit 0) fun _ => step.bind (law.origin 0) fun origin => ?_
      refine @ProgramLaw.backAt _ _ _ law 0 origin _ (step.forM fun component => ?_)
      exact law.component (fun frame program _ => below lower rfl frame program) rfl origin
        component

theorem compose {font : Font} {limit levels depth : Nat}
    (below : ∀ lower, levels = lower + 1 → ∀ frame program,
      Effects Grows Grows (Eval.evaluate font limit lower frame program)) (accent : Accent) :
    Effects Grows Grows
      (Eval.compose font limit (Eval.below font limit levels) depth accent) := by
  have step := operatorLaw
  have law := programLaw font limit
  refine step.bind (step.lift _) fun base => step.bind (step.lift _) fun mark => ?_
  refine step.bind (law.listsComponents 0) fun lists => ?_
  split
  · exact law.list 0 _
  · exact drawComponents below _

/-- What a program with that effect ends in, whether it fails or not. -/
theorem final {α : Type} {p : Eval α} (h : Effects Grows Grows p) (s : Session) :
    s.Grows (finalSession (p s)) := by
  have ends := h s
  revert ends
  generalize p s = result
  intro ends
  cases ends with
  | ok grows => exact grows
  | error grows => exact grows

end Session.Grows

end Type2Glyphs
