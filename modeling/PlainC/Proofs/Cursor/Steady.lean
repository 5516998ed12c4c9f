import PlainC.Proofs.Cursor.Refining.Statements
import PlainC.Proofs.OnePass.Progress.Expressions
import PlainC.Proofs.OnePass.Tracing.Expressions

set_option autoImplicit false

/-!
Parts of the parser with a cursor that have nothing to do with anything but the cursor. In front of
an end of input they ask for no token behind it, fail with a fault if at all, and get no further back.
-/

namespace PlainC

/-- What a part of the analysis comes to is known from its trace. -/
theorem OnePass.ahead_of_trace {α : Type} {run : OnePass.Run α} {rule : Checked α} {a : α}
    {s s' : OnePass.State} {rest : List Lexeme}
    (traced : run.trace = rule >>= fun a => pure (a, { s with ahead := rest }))
    (passes : run.result = .ok (a, s')) : ∃ ahead, s' = { s with ahead } := by
  have same := congrArg Logged.result traced
  rw [Logged.result_bind] at same
  change run.result = _ at same
  rw [passes] at same
  cases found : rule.result with
  | error fault =>
    rw [found] at same
    cases same
  | ok b =>
    rw [found] at same
    obtain ⟨-, rfl⟩ := Prod.mk.inj (Except.ok.inj same)
    exact ⟨rest, rfl⟩

namespace Cursor

open Run Walk PlainC.Cursor.Parser

/-- It is a fault that stops the walk. -/
def Stop.IsFault (stop : Stop) : Prop := ∃ fault, stop = .fault fault

/-- From a clear index on the part of the parser only moves the cursor, and by no less than what its
result tells. -/
def Steady {tape : List Lexeme} {k : Nat} {last : Lexeme} (_ : Barrier tape k last) {α : Type}
    (least : α → Nat) (parser : Parser α) : Prop :=
  ∀ s : State, Clear tape s.position → (parser tape s).Meets tape Stop.IsFault fun a s' =>
    Clear tape s'.position ∧ s'.memory = s.memory ∧ s.position + least a ≤ s'.position

/-- The result tells nothing of tokens. -/
def still {α : Type} (_ : α) : Nat := 0

/-- A token is gone over where something is found. -/
def taken {α : Type} (found : Option α) : Nat := if found.isSome then 1 else 0

variable {tape : List Lexeme} {k : Nat} {last : Lexeme} {barrier : Barrier tape k last}
  {α β : Type} {least : α → Nat} {least' : β → Nat}

theorem Steady.bind {parser : Parser α} {next : α → Parser β} (first : Steady barrier least parser)
    (second : ∀ a, Steady barrier least' (next a)) : Steady barrier least' (parser >>= next) := by
  intro s clear
  refine (first s clear).bind ?_
  rintro a s' ⟨clear', same, far⟩
  refine (second a s' clear').mono (fun _ => id) ?_
  rintro b s'' ⟨clear'', same', far'⟩
  exact ⟨clear'', same'.trans same, by omega⟩

theorem steady_pure {a : α} (nothing : least a = 0) : Steady barrier least (pure a) := by
  intro s clear
  exact meets_pure ⟨clear, rfl, Nat.le_of_eq (by rw [nothing, Nat.add_zero])⟩

theorem steady_settle (rule : Checked α) : Steady barrier still (settle rule) := by
  intro s clear
  refine (meets_settle rule).mono ?_ ?_
  · rintro _ ⟨fault, -, rfl⟩
    exact ⟨fault, rfl⟩
  · rintro a _ ⟨-, rfl⟩
    exact ⟨clear, rfl, Nat.le_refl _⟩

theorem steady_get : Steady barrier still get := by
  intro s clear
  refine meets_get.mono (fun _ => id) ?_
  rintro _ s ⟨rfl, rfl⟩
  exact ⟨clear, rfl, Nat.le_refl _⟩

theorem steady_check (rule : SymbolTable → Checked α) : Steady barrier still (check rule) :=
  steady_get.bind fun _ => steady_settle _

/-! ### Single tokens -/

theorem steady_current : Steady barrier still current := by
  intro s clear
  refine (meets_current barrier s clear).mono (fun _ => id) ?_
  rintro _ s ⟨-, rfl⟩
  exact ⟨clear, rfl, Nat.le_refl _⟩

theorem steady_sees (kind : Kind) : Steady barrier still (sees kind) :=
  steady_current.bind fun _ => steady_pure rfl

theorem steady_atEnd : Steady barrier still atEnd :=
  steady_current.bind fun _ => steady_pure rfl

theorem steady_unlessEnded {ended : Parser Bool} (steady : Steady barrier still ended) :
    Steady barrier still (unlessEnded ended) := by
  refine steady.bind ?_
  rintro (_ | _)
  · exact steady_pure rfl
  · exact steady_pure rfl

theorem steady_accept? {read : Kind → Option α} (noTrivia : read .trivia = none)
    (noEnd : read .endOfInput = none) : Steady barrier taken (accept? read) := by
  have reads : Reads barrier (accept? read) (Parse.accept? read) := reads_accept? noTrivia noEnd
  intro s clear
  refine (reads s clear).mono (fun _ => False.elim) ?_
  rintro found s' ⟨clear', same, read'⟩
  refine ⟨clear', same, ?_⟩
  have before := barrier.length_ahead s.position
  have behind := barrier.length_ahead s'.position
  have le := Clear.le barrier clear
  rcases Parse.accept?_cases read last (ahead tape k s.position) with
      ⟨t, rest, a, first, -, found'⟩ | ⟨-, found'⟩
  · obtain ⟨rfl, here⟩ := Prod.mk.inj (found'.symm.trans read')
    rw [first, List.length_cons, here] at before
    rw [taken, Option.isSome_some, if_pos rfl]
    omega
  · obtain ⟨rfl, here⟩ := Prod.mk.inj (found'.symm.trans read')
    rw [here] at before
    rw [taken, Option.isSome_none, if_neg Bool.false_ne_true]
    omega

theorem steady_match? (kind : Kind) (noTrivia : kind ≠ .trivia) (noEnd : kind ≠ .endOfInput) :
    Steady barrier taken (match? kind) := by
  intro s clear
  have accepts : Steady barrier taken (accept? fun k => if k = kind then some () else none) :=
    steady_accept? (by simp [noTrivia.symm]) (by simp [noEnd.symm])
  refine (accepts s clear).bind ?_
  rintro (_ | found) s' h
  · exact meets_pure h
  · exact meets_pure h

theorem steady_unexpected (wanted : Wanted) :
    Steady barrier still (unexpected wanted : Parser α) :=
  steady_current.bind fun _ => steady_settle _

theorem steady_mark? (mark : Delimiter) : Steady barrier taken (match? (.delimiter mark)) :=
  steady_match? _ nofun nofun

theorem steady_keyword? (word : Keyword) : Steady barrier taken (match? (.keyword word)) :=
  steady_match? _ nofun nofun

theorem steady_operator? (op : Operator) : Steady barrier taken (match? (.operator op)) :=
  steady_match? _ nofun nofun

theorem steady_name? : Steady barrier taken (accept? Parse.nameOf) := steady_accept? rfl rfl

theorem steady_expect (mark : Delimiter) : Steady barrier still (expect mark) := by
  refine (steady_mark? mark).bind ?_
  rintro (_ | place)
  · exact steady_unexpected _
  · exact steady_pure rfl

theorem steady_expectName (wanted : Wanted) : Steady barrier still (expectName wanted) := by
  refine steady_name?.bind ?_
  rintro (_ | name)
  · exact steady_unexpected _
  · exact steady_pure rfl

/-! ### Types and expressions -/

/-- What refines a part of the analysis that only takes lexemes. -/
theorem steady_of_refines {parser : Parser α} {analysis : OnePass.Analysis α}
    (refines : Refines barrier Eq parser analysis)
    (keeps : ∀ s, (analysis last s).Keeps s.ahead.length fun _ s' => s'.ahead <:+ s.ahead)
    (traced : ∀ s, ∃ (rule : Checked α) (rest : List Lexeme), (analysis last s).trace =
      rule >>= fun a => pure (a, { s with ahead := rest })) : Steady barrier still parser := by
  intro s clear
  have kept := keeps (s.view tape k)
  refine (refines s clear fun among => kept.events _ among).mono ?_ ?_
  · rintro _ ⟨fault, -, rfl⟩
    exact ⟨fault, rfl⟩
  · rintro _ ⟨position, table, region, functions, loops⟩ ⟨clear', a, passes, rfl⟩
    obtain ⟨rule, rest, trace⟩ := traced (s.view tape k)
    obtain ⟨ahead, same⟩ := OnePass.ahead_of_trace trace passes
    simp only [State.view, OnePass.State.mk.injEq] at same
    obtain ⟨-, rfl, rfl, rfl, rfl⟩ := same
    refine ⟨clear', rfl, ?_⟩
    have shorter := (kept.result _ _ passes).length_le
    simp only [State.view, barrier.length_ahead] at shorter
    have le := Clear.le barrier clear
    have le' := Clear.le barrier clear'
    simp only [still, Nat.add_zero]
    omega

theorem steady_extent : Steady barrier still extent := by
  refine steady_of_refines refines_extent (fun s => OnePass.keeps_extent _ _ s) fun s => ?_
  exact ⟨_, _, OnePass.trace_extent last s⟩

theorem steady_expression : Steady barrier still expression := by
  refine steady_of_refines refines_expression
    (fun s => (OnePass.progresses_expression (Nat.le_refl _) _ s (Nat.lt_succ_self _)).mono
      fun _ _ further => further.suffix) fun s => ?_
  exact ⟨_, _, OnePass.trace_expression last s⟩

theorem steady_typeBase : Steady barrier still typeBase := by
  refine (steady_keyword? _).bind ?_
  rintro (_ | _)
  case some => exact steady_pure rfl
  refine (steady_keyword? _).bind ?_
  rintro (_ | _)
  case some => exact steady_pure rfl
  refine (steady_keyword? _).bind ?_
  rintro (_ | _)
  case some => exact steady_pure rfl
  refine (steady_keyword? _).bind ?_
  rintro (_ | word)
  · exact steady_pure rfl
  refine (steady_expectName _).bind fun name => ?_
  exact (steady_check _).bind fun _ => steady_pure rfl

theorem steady_resultType : Steady barrier still resultType := by
  refine (steady_keyword? _).bind ?_
  rintro (_ | _)
  case some => exact steady_pure rfl
  refine steady_typeBase.bind ?_
  rintro (_ | base)
  · exact steady_pure rfl
  refine (steady_operator? _).bind ?_
  rintro (_ | _)
  · exact steady_pure rfl
  · exact steady_pure rfl

/-! ### Statements -/

theorem steady_unused : Steady barrier still unused :=
  steady_expression.bind fun _ => steady_pure rfl

theorem steady_tested : Steady barrier still tested := by
  refine steady_current.bind fun start => ?_
  exact steady_expression.bind fun value => steady_check _

theorem steady_condition : Steady barrier still condition := by
  refine (steady_expect _).bind fun _ => ?_
  exact steady_tested.bind fun _ => steady_expect _

theorem steady_unlessSeen (mark : Delimiter) {parser : Parser Unit}
    (steady : Steady barrier still parser) : Steady barrier still (unlessSeen mark parser) := by
  refine (steady_sees _).bind ?_
  rintro (_ | _)
  · exact steady
  · exact steady_pure rfl

theorem steady_forHeader : Steady barrier still forHeader := by
  refine (steady_expect _).bind fun _ => ?_
  refine (steady_unlessSeen _ steady_unused).bind fun _ => ?_
  refine (steady_expect _).bind fun _ => ?_
  refine (steady_unlessSeen _ steady_tested).bind fun _ => ?_
  refine (steady_expect _).bind fun _ => ?_
  exact (steady_unlessSeen _ steady_unused).bind fun _ => steady_expect _

theorem steady_breakLoop (word : Place) : Steady barrier still (breakLoop word) := by
  refine steady_get.bind fun s => ?_
  exact (steady_check _).bind fun _ => steady_expect _

theorem steady_expressionStatement : Steady barrier still expressionStatement := by
  refine steady_current.bind fun next => ?_
  split
  · exact steady_unused.bind fun _ => steady_expect _
  · exact steady_unexpected _

end Cursor

end PlainC
