import PlainC.Proofs.Cursor.Barrier
import PlainC.Proofs.Cursor.Productions

set_option autoImplicit false

/-!
The parser with a cursor against the analysis that has the lexemes in front of the first end of input
and nothing else. A part of the parser that refines a part of the analysis comes to the same, and
gets over no end of input on its way.
-/

namespace PlainC

namespace Cursor

/-- The state of the analysis in front of what is left before the token of index `k`. -/
def State.view (tape : List Lexeme) (k : Nat) (s : State) : OnePass.State :=
  ⟨ahead tape k s.position, s.memory.table, s.memory.region, s.memory.functions, s.memory.loops⟩

/-- From a clear index on, the part of the parser reads what the other parser does, and keeps all but
the cursor. -/
def Reads {tape : List Lexeme} {k : Nat} {last : Lexeme} (_ : Barrier tape k last) {α : Type}
    (parser : Parser α) (parse : Parse α) : Prop :=
  ∀ s : State, Clear tape s.position →
    (parser tape s).Meets tape (fun _ => False) fun a s' => Clear tape s'.position ∧
      s'.memory = s.memory ∧ parse last (ahead tape k s.position) = (a, ahead tape k s'.position)

/-- From a clear index on, the part of the parser fails as the part of the analysis does, or comes to
a related result in the same state; if there the analysis has a bound that is large enough. -/
def Refines {tape : List Lexeme} {k : Nat} {last : Lexeme} (_ : Barrier tape k last) {α β : Type}
    (rel : α → β → Prop) (parser : Parser α) (analysis : OnePass.Analysis β) : Prop :=
  ∀ s : State, Clear tape s.position → .cutOff ∉ (analysis last (s.view tape k)).events →
    (parser tape s).Meets tape
      (fun stop => ∃ fault, (analysis last (s.view tape k)).result = .error fault ∧
        stop = .fault fault)
      fun a s' => Clear tape s'.position ∧
        ∃ b, (analysis last (s.view tape k)).result = .ok (b, s'.view tape k) ∧ rel a b

open Run Walk Cursor.Parser

variable {tape : List Lexeme} {k : Nat} {last : Lexeme} {α β γ δ : Type}

section

variable {barrier : Barrier tape k last}

/-! ### Reading -/

theorem reads_pure (a : α) : Reads barrier (pure a) (pure a) :=
  fun _ clear => meets_pure ⟨clear, rfl, rfl⟩

theorem Reads.bind {parser : Parser α} {parse : Parse α} {next : α → Parser β}
    {next' : α → Parse β} (first : Reads barrier parser parse)
    (second : ∀ a, Reads barrier (next a) (next' a)) :
    Reads barrier (parser >>= next) (parse >>= next') := by
  intro s clear
  refine (first s clear).bind ?_
  rintro a s' ⟨clear', same, read⟩
  refine (second a s' clear').mono (fun _ => id) ?_
  rintro b s'' ⟨clear'', same', read'⟩
  exact ⟨clear'', same'.trans same, by rw [Parse.bind_apply, read, read']⟩

theorem meets_token (barrier : Barrier tape k last) {index : Nat} (clear : Clear tape index)
    (s : State) {stopped : Stop → Prop} :
    (token index tape s).Meets tape stopped fun found s' =>
      found = (ahead tape k index).headD last ∧ s' = s := by
  have here := clear.getElem? barrier
  simp only [token, here]
  exact meets_ok (List.forall_mem_singleton.mpr clear) ⟨rfl, rfl⟩

theorem meets_moveTo {index : Nat} (clear : Clear tape index) (s : State)
    {stopped : Stop → Prop} :
    (moveTo index tape s).Meets tape stopped fun _ s' => s' = { s with position := index } :=
  meets_ok (List.forall_mem_singleton.mpr clear) rfl

theorem meets_current (barrier : Barrier tape k last) (s : State)
    (clear : Clear tape s.position) {stopped : Stop → Prop} :
    (current tape s).Meets tape stopped fun found s' =>
      found = (ahead tape k s.position).headD last ∧ s' = s := by
  refine meets_get.bind ?_
  rintro _ s ⟨rfl, rfl⟩
  exact meets_token barrier clear s

theorem reads_current : Reads barrier current Parse.peek := by
  intro s clear
  refine (meets_current barrier s clear).mono (fun _ => id) ?_
  rintro _ s ⟨rfl, rfl⟩
  exact ⟨clear, rfl, rfl⟩

theorem reads_sees (kind : Kind) : Reads barrier (sees kind) (Parse.sees kind) :=
  reads_current.bind fun _ => reads_pure _

theorem meets_atEnd (barrier : Barrier tape k last) (s : State)
    (clear : Clear tape s.position) {stopped : Stop → Prop} :
    (atEnd tape s).Meets tape stopped fun found s' =>
      found = (ahead tape k s.position).isEmpty ∧ s' = s := by
  refine (meets_current barrier s clear).bind ?_
  rintro _ s ⟨rfl, rfl⟩
  refine meets_pure ⟨?_, rfl⟩
  obtain ⟨token, -, -, notEnd, front⟩ | ⟨-, -, front⟩ := clear.cases barrier
  · simp [front, notEnd]
  · simp [front, barrier.isEnd]

theorem reads_atEnd : Reads barrier atEnd Parse.atEnd := by
  intro s clear
  refine (meets_atEnd barrier s clear).mono (fun _ => id) ?_
  rintro _ s ⟨rfl, rfl⟩
  exact ⟨clear, rfl, rfl⟩

/-- The next token is gone over if it is no end of input. -/
theorem meets_advance (barrier : Barrier tape k last) (s : State) (clear : Clear tape s.position)
    {here : Lexeme} (front : ahead tape k s.position = here :: ahead tape k (s.position + 1))
    (further : Clear tape (s.position + 1)) {stopped : Stop → Prop} :
    (advance tape s).Meets tape stopped fun found s' =>
      found = here ∧ s' = { s with position := s.position + 1 } := by
  refine (meets_current barrier s clear).bind ?_
  rintro _ s ⟨rfl, rfl⟩
  refine (meets_atEnd barrier s clear).bind ?_
  rintro _ s ⟨rfl, rfl⟩
  rw [front]
  refine meets_get.bind ?_
  rintro _ s ⟨rfl, rfl⟩
  refine (meets_moveTo further s).bind ?_
  rintro _ _ rfl
  exact meets_pure ⟨rfl, rfl⟩

/-- What cannot be trivia or an end of input is gone over. -/
theorem reads_accept? {read : Kind → Option α} (noTrivia : read .trivia = none)
    (noEnd : read .endOfInput = none) :
    Reads barrier (accept? read) (Parse.accept? read) := by
  intro s clear
  refine (meets_current barrier s clear).bind ?_
  rintro _ s ⟨rfl, rfl⟩
  obtain ⟨token, -, here, notEnd, front⟩ | ⟨-, -, front⟩ := clear.cases barrier
  · rw [front, List.headD_cons]
    cases found : read token.value with
    | none => exact meets_pure ⟨clear, rfl, by simp [Parse.accept?, front, found]⟩
    | some a =>
      have further := clear.succ here (by rintro same; rw [same, noTrivia] at found; cases found)
        notEnd
      refine (meets_advance barrier s clear front further).bind ?_
      rintro _ _ ⟨rfl, rfl⟩
      exact meets_pure ⟨further, rfl, by simp [Parse.accept?, found]⟩
  · rw [front, List.headD_nil, barrier.isEnd, noEnd]
    exact meets_pure ⟨clear, rfl, by simp [Parse.accept?, front]⟩

theorem reads_match? (kind : Kind) (noTrivia : kind ≠ .trivia) (noEnd : kind ≠ .endOfInput) :
    Reads barrier (match? kind) (Parse.token? kind) := by
  refine (reads_accept? (by simp [noTrivia.symm]) (by simp [noEnd.symm])).bind ?_
  rintro (_ | found)
  · exact reads_pure _
  · exact reads_pure _

/-! ### Refinement -/

variable {rel : α → β → Prop} {rel' : γ → δ → Prop}

theorem Refines.bind {parser : Parser α} {analysis : OnePass.Analysis β} {next : α → Parser γ}
    {next' : β → OnePass.Analysis δ} (first : Refines barrier rel parser analysis)
    (second : ∀ a b, rel a b → Refines barrier rel' (next a) (next' b)) :
    Refines barrier rel' (parser >>= next) (analysis >>= next') := by
  intro s clear uncut
  have whole : (analysis >>= next') last (s.view tape k) =
    (analysis last (s.view tape k)).andThen fun b => next' b last := rfl
  rw [whole] at uncut ⊢
  rcases h : analysis last (s.view tape k) with ⟨events, fault | ⟨b, s'⟩⟩
  · rw [h] at uncut
    have fails : (parser tape s).Meets tape (· = .fault fault) fun _ _ => False := by
      refine (first s clear (by rwa [h])).mono ?_ ?_
      · rintro _ ⟨_, same, rfl⟩
        rw [h] at same
        rw [← Except.error.inj same]
      · rintro _ _ ⟨-, _, same, -⟩
        rw [h] at same
        cases same
    have fails' : ((parser >>= next) tape s).Meets tape (· = .fault fault) fun _ _ => False :=
      fails.bind fun _ _ => False.elim
    exact fails'.mono (fun _ same => ⟨fault, rfl, same⟩) fun _ _ => False.elim
  · rw [h] at uncut
    have passes : (parser tape s).Meets tape (fun _ => False) fun a t =>
        Clear tape t.position ∧ s' = t.view tape k ∧ rel a b := by
      refine (first s clear ?_).mono ?_ ?_
      · rw [h]
        exact fun among => uncut (List.mem_append_left _ among)
      · rintro _ ⟨_, same, -⟩
        rw [h] at same
        cases same
      · rintro a t ⟨clear', _, same, related⟩
        rw [h] at same
        obtain ⟨rfl, rfl⟩ := Prod.mk.inj (Except.ok.inj same)
        exact ⟨clear', rfl, related⟩
    refine (passes.mono (fun _ => False.elim) fun _ _ => id).bind ?_
    rintro a t ⟨clear', rfl, related⟩
    exact second a b related t clear' fun among => uncut (List.mem_append_right _ among)

theorem Refines.seq {parser : Parser α} {analysis : OnePass.Analysis α} {next : α → Parser γ}
    {next' : α → OnePass.Analysis δ} (first : Refines barrier Eq parser analysis)
    (second : ∀ a, Refines barrier rel' (next a) (next' a)) :
    Refines barrier rel' (parser >>= next) (analysis >>= next') := by
  refine first.bind ?_
  rintro a _ rfl
  exact second a

theorem refines_pure {a : α} {b : β} (related : rel a b) :
    Refines barrier rel (pure a) (pure b) :=
  fun _ clear _ => meets_pure ⟨clear, b, rfl, related⟩

/-- The bound of the analysis is large enough. -/
theorem refines_cutOff (parser : Parser α) (next : Unit → OnePass.Analysis β) :
    Refines barrier rel parser (OnePass.Analysis.emit .cutOff >>= next) :=
  fun _ _ uncut => absurd (List.mem_append_left _ (List.mem_singleton_self _)) uncut

theorem Refines.turned {parser : Parser α} {analysis : OnePass.Analysis β}
    (refines : Refines barrier rel parser analysis) (loop : OnePass.Loop) (count : Nat) :
    Refines barrier rel parser (OnePass.Analysis.emit (.turned loop count) >>= fun _ => analysis) :=
  fun s clear uncut => refines s clear fun among => uncut (List.mem_append_right _ among)

/-- The parser keeps no log. -/
theorem Refines.noted {parser : Parser α} {analysis : OnePass.Analysis β}
    (refines : Refines barrier rel parser analysis) (record : SymbolTable → LogRecord) :
    Refines barrier rel parser
      (OnePass.Analysis.check (fun table => Logged.write (record table)) >>= fun _ => analysis) :=
  fun s clear uncut => refines s clear fun among => uncut (List.mem_append_right _ among)

/-- Nothing comes of a log at the end. -/
theorem Refines.thenNoted {parser : Parser Unit} {analysis : OnePass.Analysis Unit}
    (refines : Refines barrier Eq parser analysis) (record : SymbolTable → LogRecord) :
    Refines barrier Eq parser
      (analysis >>= fun _ => OnePass.Analysis.check fun table => Logged.write (record table)) := by
  intro s clear uncut
  have same : ((analysis >>= fun _ => OnePass.Analysis.check fun table =>
      Logged.write (record table)) last (s.view tape k)).result =
        (analysis last (s.view tape k)).result := by
    change ((analysis last (s.view tape k)).andThen _).result = _
    rcases analysis last (s.view tape k) with ⟨events, fault | ⟨⟨⟩, s'⟩⟩ <;> rfl
  rw [same]
  refine refines s clear fun among => uncut ?_
  change _ ∈ ((analysis last (s.view tape k)).andThen _).events
  rcases h : analysis last (s.view tape k) with ⟨events, fault | ⟨⟨⟩, s'⟩⟩ <;> rw [h] at among
  · exact among
  · exact List.mem_append_left _ among

theorem refines_get : Refines barrier (fun s s' => s' = s.view tape k ∧ Clear tape s.position)
    get OnePass.Analysis.get := by
  intro s clear _
  refine meets_get.mono (fun _ => False.elim) ?_
  rintro _ s ⟨rfl, rfl⟩
  exact ⟨clear, _, rfl, rfl, clear⟩

theorem refines_update {change : Memory → Memory} {change' : OnePass.State → OnePass.State}
    (same : ∀ s : State, change' (s.view tape k) =
      State.view tape k { s with memory := change s.memory }) :
    Refines barrier Eq (update change) (OnePass.Analysis.update change') := by
  intro s clear _
  refine meets_ok (List.forall_mem_nil _) ⟨clear, (), ?_, rfl⟩
  rw [← same]
  rfl

theorem Reads.refines {parser : Parser α} {parse : Parse α} (reads : Reads barrier parser parse) :
    Refines barrier Eq parser (OnePass.Analysis.read parse) := by
  intro s clear _
  refine (reads s clear).mono (fun _ => False.elim) ?_
  rintro a s' ⟨clear', same, read⟩
  refine ⟨clear', a, ?_, rfl⟩
  simp only [OnePass.Analysis.read, State.view, read, same]

theorem refines_settle (rule : Checked α) :
    Refines barrier Eq (settle rule) (OnePass.Analysis.check fun _ => rule) := by
  intro s clear _
  refine (meets_settle rule).mono ?_ ?_
  · rintro _ ⟨fault, fails, rfl⟩
    exact ⟨fault, by simp [OnePass.Analysis.check, fails, Except.map], rfl⟩
  · rintro a _ ⟨gives, rfl⟩
    refine ⟨clear, a, ?_, rfl⟩
    rw [OnePass.Analysis.check, gives]
    rfl

theorem refines_check (rule : SymbolTable → Checked α) :
    Refines barrier Eq (check rule) (OnePass.Analysis.check rule) := by
  intro s clear uncut
  refine meets_get.bind ?_
  rintro _ s ⟨rfl, rfl⟩
  have settles : Refines barrier Eq (settle (rule s.memory.table)) _ := refines_settle _
  exact settles s clear uncut

theorem refines_store (rule : SymbolTable → Checked SymbolTable) :
    Refines barrier Eq (store rule) (OnePass.Analysis.store rule) := by
  refine (refines_check rule).seq fun table => ?_
  exact refines_update fun _ => rfl

theorem refines_restore {checkpoint : State} (clear : Clear tape checkpoint.position) :
    Refines barrier Eq (restore checkpoint.position)
      (OnePass.Analysis.restore (checkpoint.view tape k)) := by
  intro s _ _
  refine (meets_token barrier clear s).bind ?_
  rintro _ s ⟨-, rfl⟩
  refine (meets_moveTo clear s).mono (fun _ => False.elim) ?_
  rintro _ _ rfl
  exact ⟨clear, (), rfl, rfl⟩

theorem refines_unexpected (wanted : Wanted) :
    Refines barrier rel (unexpected wanted) (OnePass.unexpected wanted) := by
  refine reads_current.refines.seq fun next => ?_
  intro s clear _
  refine (meets_settle _).mono ?_ ?_
  · rintro _ ⟨fault, ⟨⟩, rfl⟩
    exact ⟨_, rfl, rfl⟩
  · rintro _ _ ⟨⟨⟩, -⟩

/-- The tape is longer than what is left of it in front of the end of input. -/
theorem refines_bounded {parser : Nat → Parser α} {analysis : Nat → OnePass.Analysis β}
    (refines : ∀ fuel fuel', fuel ≤ fuel' → Refines barrier rel (parser fuel') (analysis fuel)) :
    Refines barrier rel (bounded parser) (OnePass.Analysis.bounded analysis) := by
  intro s clear uncut
  refine refines _ _ ?_ s clear uncut
  have length := barrier.length
  rw [State.view, barrier.length_ahead]
  omega

theorem refines_repeating {test : Parser (Option γ)} {test' : OnePass.Analysis (Option γ)}
    {body : α → γ → Parser α} {body' : α → γ → OnePass.Analysis α}
    (tests : Refines barrier Eq test test') (turns : ∀ a c, Refines barrier Eq (body a c) (body' a c))
    (loop : OnePass.Loop) : ∀ fuel fuel' count a, fuel ≤ fuel' →
      Refines barrier Eq (repeating test body fuel' a)
        (OnePass.Analysis.repeating loop test' body' fuel count a) := by
  intro fuel
  induction fuel with
  | zero => exact fun _ _ _ _ => refines_cutOff _ _
  | succ fuel ih =>
    rintro (_ | fuel') count a le
    · cases le
    · refine tests.seq ?_
      rintro (_ | c)
      · exact refines_pure rfl
      · refine Refines.turned ?_ loop (count + 1)
        refine (turns a c).bind ?_
        rintro a' _ rfl
        exact ih fuel' (count + 1) a' (Nat.le_of_succ_le_succ le)

end

end Cursor

end PlainC
