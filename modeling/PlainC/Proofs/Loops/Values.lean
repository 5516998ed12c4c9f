import PlainC.Proofs.Cursor.Program
import PlainC.Proofs.Guarded.Statements
import PlainC.Proofs.OnePass.Tracing.Declarations

set_option autoImplicit false

/-!
What the parser with its guards has done where it comes to a value: it has read a tree in the tokens
it has gone over, whose check passes and gives its table.
-/

namespace PlainC

namespace Guarded

open Cursor (Barrier Clear Refines Reads ahead taken)
open Cursor.Parser (match? condition forHeader unlessEnded)
open Checked (gives_bind gives_pure)

/-- Where the run comes to a value, the postcondition holds. -/
def Run.Comes {α : Type} (run : Run α) (post : α → State → Prop) : Prop :=
  ∀ a s, run.result = .ok (.ok a, s) → post a s

/-- From the first state to the second one a statement has been read, of which the check passes. -/
structure State.Performs (s : State) (tape : List Lexeme) (k : Nat) (scope : FunctionScope)
    (loops : Nat) (read : Stmt × List Lexeme) (s' : State) : Prop where
  reaches : s.Reaches tape loops 1 s'
  rest : ahead tape k s'.position = read.2
  gives : (read.1.check scope loops s.table).Gives s'.table

variable {tape : List Lexeme} {k : Nat} {last : Lexeme} {loops : Nat} {s s' : State} {α β : Type}

theorem Run.Comes.mono {run : Run α} {post post' : α → State → Prop} (comes : run.Comes post)
    (weaker : ∀ a s, post a s → post' a s) : run.Comes post' :=
  fun a s ends => weaker a s (comes a s ends)

section

variable (barrier : Barrier tape k last)

include barrier

/-- What is left of the tape tells where the cursor is, and with it the whole state. -/
theorem State.Reaches.eq_of_ahead {n : Nat} (fit : s.Fit tape loops)
    (reaches : s.Reaches tape loops n s')
    (same : ahead tape k s'.position = ahead tape k s.position) (table : s'.table = s.table) :
    s' = s := by
  have position : s'.position = s.position := by
    have lengths := congrArg List.length same
    rw [barrier.length_ahead, barrier.length_ahead] at lengths
    have le := Clear.le barrier fit.clear
    have le' := Clear.le barrier reaches.fit.clear
    omega
  have loopDepth := reaches.fit.loopDepth.trans fit.loopDepth.symm
  have context := reaches.context
  have functions := reaches.functions
  cases s
  cases s'
  simp only at position table loopDepth context functions
  rw [position, table, context, functions, loopDepth]

/-- The parser comes to what the analysis comes to that it follows. -/
theorem Follows.comes {parser : Parser α} {other : Cursor.Parser α}
    {analysis : OnePass.Analysis α} {post : α → State → Prop} {limit : Nat}
    {kept : α → OnePass.State → Prop}
    (follows : Follows tape loops (parser tape s) (other tape s.cursor) post)
    (refines : Refines barrier Eq other analysis) (clear : Clear tape s.position)
    (keeps : (analysis last (s.cursor.view tape k)).Keeps limit kept) :
    (parser tape s).Comes fun a s' => post a s' ∧ kept a (s'.cursor.view tape k) ∧
      (analysis last (s.cursor.view tape k)).trace.Gives (a, s'.cursor.view tape k) := by
  intro a s' ends
  have meets := refines s.cursor clear fun among => keeps.events _ among
  have settles : Settles (other tape s.cursor) := by
    intro stop stopped
    obtain ⟨fault, -, rfl⟩ := meets.stops stop stopped
    exact ⟨fault, rfl⟩
  obtain ⟨-, ⟨fault, s₁, fails, -⟩ | ⟨a₁, s₁, passes, passes', holds⟩⟩ := follows settles
  · cases ends.symm.trans fails
  · obtain ⟨same, rfl⟩ := Prod.mk.inj (Except.ok.inj (ends.symm.trans passes))
    obtain rfl := Except.ok.inj same
    obtain ⟨-, b, given, rfl⟩ := meets.result _ _ passes'
    exact ⟨holds, keeps.result _ _ given, given⟩

/-! ### Single tokens -/

theorem comes_read {parser : Cursor.Parser α} {parse : Parse α} {least : α → Nat}
    (reads : Reads barrier parser parse) (steady : Cursor.Steady barrier least parser)
    (fit : s.Fit tape loops) :
    (Parser.lift parser tape s).Comes fun a s' => s.Reaches tape loops (least a) s' ∧
      s'.table = s.table ∧
      parse last (ahead tape k s.position) = (a, ahead tape k s'.position) := by
  have comes := (follows_lift barrier steady (.refl fit)).comes barrier reads.refines fit.clear
    (OnePass.Analysis.keeps_read 0 last _ parse)
  refine comes.mono ?_
  rintro a s' ⟨reaches, ⟨read, same⟩, -⟩
  have table : (s'.cursor.view tape k).table = (s.cursor.view tape k).table := by rw [same]
  exact ⟨Nat.zero_add (least a) ▸ reaches, table, read⟩

/-- A token is there and has been gone over, or is not there and nothing has changed. -/
theorem comes_match? (kind : Kind) (noTrivia : kind ≠ .trivia) (noEnd : kind ≠ .endOfInput)
    (fit : s.Fit tape loops) :
    (Parser.lift (match? kind) tape s).Comes fun
      | none, s' => s' = s ∧ ∀ t ∈ (ahead tape k s.position).head?, t.value ≠ kind
      | some place, s' => s.Reaches tape loops 1 s' ∧ s'.table = s.table ∧
        ahead tape k s.position = ⟨kind, place⟩ :: ahead tape k s'.position := by
  have comes := comes_read barrier (Cursor.reads_match? kind noTrivia noEnd)
    (Cursor.steady_match? kind noTrivia noEnd) fit
  refine comes.mono ?_
  rintro found s' ⟨reaches, table, read⟩
  rcases Parse.token?_cases kind last (ahead tape k s.position) with
      ⟨place, behind, first, found'⟩ | ⟨other, found'⟩
  · obtain ⟨rfl, rfl⟩ := Prod.mk.inj (found'.symm.trans read)
    exact ⟨reaches, table, first⟩
  · obtain ⟨rfl, rest⟩ := Prod.mk.inj (found'.symm.trans read)
    exact ⟨reaches.eq_of_ahead barrier fit rest.symm table, other⟩

theorem comes_token {kind : Kind} {place : Place} {rest : List Lexeme} (fit : s.Fit tape loops)
    (first : ahead tape k s.position = ⟨kind, place⟩ :: rest) (noTrivia : kind ≠ .trivia)
    (noEnd : kind ≠ .endOfInput) :
    (Parser.lift (match? kind) tape s).Comes fun found s' => found = some place ∧
      s.Reaches tape loops 1 s' ∧ s'.table = s.table ∧ ahead tape k s'.position = rest := by
  refine (comes_match? barrier kind noTrivia noEnd fit).mono ?_
  rintro (_ | place') s' h
  · exact absurd rfl (h.2 _ (by rw [first, List.head?_cons, Option.mem_some_iff]))
  · obtain ⟨reaches, table, first'⟩ := h
    obtain ⟨same, rfl⟩ := List.cons.inj (first.symm.trans first')
    obtain rfl : place = place' := congrArg At.place same
    exact ⟨rfl, reaches, table, rfl⟩

theorem comes_noToken {kind : Kind} (fit : s.Fit tape loops)
    (other : ∀ t ∈ (ahead tape k s.position).head?, t.value ≠ kind) (noTrivia : kind ≠ .trivia)
    (noEnd : kind ≠ .endOfInput) :
    (Parser.lift (match? kind) tape s).Comes fun found s' => found = none ∧ s' = s := by
  refine (comes_match? barrier kind noTrivia noEnd fit).mono ?_
  rintro (_ | place) s' h
  · exact ⟨rfl, h.1⟩
  · exact absurd rfl (other _ (by rw [h.2.2, List.head?_cons, Option.mem_some_iff]))

/-- Looking ahead changes nothing. -/
theorem comes_look {parser : Cursor.Parser α} {parse : Parse α} {least : α → Nat}
    (reads : Reads barrier parser parse) (steady : Cursor.Steady barrier least parser)
    (looks : ∀ last ts, (parse last ts).2 = ts) (fit : s.Fit tape loops) :
    (Parser.lift parser tape s).Comes fun a s' =>
      s' = s ∧ a = (parse last (ahead tape k s.position)).1 := by
  refine (comes_read barrier reads steady fit).mono ?_
  rintro a s' ⟨reaches, table, read⟩
  have rest := looks last (ahead tape k s.position)
  rw [read] at rest ⊢
  exact ⟨reaches.eq_of_ahead barrier fit rest table, rfl⟩

/-- A turn of a loop begins just if the loop has not come to its end. -/
theorem comes_unlessEnded {ended : Cursor.Parser Bool} {ended' : Parse Bool}
    (reads : Reads barrier ended ended') (steady : Cursor.Steady barrier Cursor.still ended)
    (looks : ∀ last ts, (ended' last ts).2 = ts) (fit : s.Fit tape loops) :
    (Parser.lift (unlessEnded ended) tape s).Comes fun found s' =>
      s' = s ∧ (found = none ↔ (ended' last (ahead tape k s.position)).1 = true) := by
  have reads' : Reads barrier (unlessEnded ended)
      (ended' >>= fun found => pure (if found then none else some ())) :=
    reads.bind fun
      | true => Cursor.reads_pure none
      | false => Cursor.reads_pure (some ())
  refine (comes_look barrier reads' (Cursor.steady_unlessEnded steady) looks fit).mono ?_
  rintro found s' ⟨same, rfl⟩
  refine ⟨same, ?_⟩
  rw [Parse.bind_apply, Parse.pure_apply]
  cases (ended' last (ahead tape k s.position)).1 <;> simp

/-! ### Heads of statements -/

/-- A part that changes nothing but the place, and checks what it reads. -/
theorem comes_checked {parser : Cursor.Parser Unit} {analysis : OnePass.Analysis Unit}
    {parse : Parse β} (check : SymbolTable → β → Checked Unit)
    (steady : Cursor.Steady barrier Cursor.still parser)
    (refines : Refines barrier Eq parser analysis)
    (progresses : ∀ limit, OnePass.Progresses limit (limit + 1) analysis)
    (traces : ∀ s, (analysis last s).trace = check s.table (parse last s.ahead).1 >>= fun _ =>
      pure ((), { s with ahead := (parse last s.ahead).2 })) (fit : s.Fit tape loops) :
    (Parser.lift parser tape s).Comes fun _ s' =>
      s.Reaches tape loops 0 s' ∧ s'.table = s.table ∧
        ahead tape k s'.position = (parse last (ahead tape k s.position)).2 ∧
        (check s.table (parse last (ahead tape k s.position)).1).Gives () := by
  have keeps := progresses (s.cursor.view tape k).ahead.length last (s.cursor.view tape k)
    (Nat.lt_succ_self _)
  have comes := (follows_lift barrier steady (.refl fit)).comes barrier refines fit.clear keeps
  refine comes.mono ?_
  rintro ⟨⟩ s' ⟨reaches, -, given⟩
  rw [traces] at given
  simp only [gives_bind, gives_pure, Prod.mk.injEq, true_and] at given
  obtain ⟨⟨⟩, passes, same⟩ := given
  exact ⟨reaches, congrArg OnePass.State.table same, congrArg OnePass.State.ahead same, passes⟩

theorem comes_condition (fit : s.Fit tape loops) :
    (Parser.lift condition tape s).Comes fun _ s' =>
      s.Reaches tape loops 0 s' ∧ s'.table = s.table ∧
        ahead tape k s'.position = (Condition.parse last (ahead tape k s.position)).2 ∧
        ((Condition.parse last (ahead tape k s.position)).1.check s.table).Gives () :=
  comes_checked barrier Condition.check Cursor.steady_condition Cursor.Parser.refines_condition
    (fun _ => OnePass.progresses_condition) (OnePass.trace_condition last) fit

theorem comes_forHeader (fit : s.Fit tape loops) :
    (Parser.lift forHeader tape s).Comes fun _ s' =>
      s.Reaches tape loops 0 s' ∧ s'.table = s.table ∧
        ahead tape k s'.position = (ForHeader.parse last (ahead tape k s.position)).2 ∧
        ((ForHeader.parse last (ahead tape k s.position)).1.check s.table).Gives () :=
  comes_checked barrier ForHeader.check Cursor.steady_forHeader Cursor.Parser.refines_forHeader
    (fun _ => OnePass.progresses_forHeader) (OnePass.trace_forHeader last) fit

/-! ### Declarations of variables and statements -/

/-- Where less is left of the tape, the cursor is further on. -/
theorem State.Reaches.advance {n : Nat} (reaches : s.Reaches tape loops n s')
    (advances : (s.cursor.view tape k).Advances (s'.cursor.view tape k)) :
    s.Reaches tape loops 1 s' :=
  { reaches with
    far := by
      have shorter : (ahead tape k s'.position).length < (ahead tape k s.position).length :=
        advances.length
      rw [barrier.length_ahead, barrier.length_ahead] at shorter
      omega }

section

variable (short : tape.length < counterBound)

include short

theorem comes_varDeclaration (fit : s.Fit tape loops) :
    (Parser.varDeclaration tape s).Comes fun found s' =>
      match VarDecl.parse? last (ahead tape k s.position) with
      | (none, _) => found = false ∧ s' = s
      | (some decl, rest) => found = true ∧ s.Reaches tape loops 1 s' ∧
        ahead tape k s'.position = rest ∧ (decl.declare s.context.region s.table).Gives s'.table := by
  have keeps := OnePass.keeps_varDeclaration last (s.cursor.view tape k) (Nat.le_refl _)
  have comes := (follows_varDeclaration barrier short fit).comes barrier
    Cursor.Parser.refines_varDeclaration fit.clear keeps
  refine comes.mono ?_
  rintro found s' ⟨reaches, moves, given⟩
  rw [OnePass.trace_varDeclaration] at given
  change (match VarDecl.parse? last (ahead tape k s.position) with
    | (none, rest) => _
    | (some decl, rest) => _ : Checked (Bool × OnePass.State)).Gives _ at given
  rcases read : VarDecl.parse? last (ahead tape k s.position) with ⟨_ | decl, rest⟩ <;>
    rw [read] at given
  · obtain ⟨rfl, same⟩ := Prod.mk.inj (gives_pure.mp given)
    have unmoved := OnePass.State.moves_false.mp moves
    exact ⟨rfl, reaches.eq_of_ahead barrier fit (congrArg OnePass.State.ahead unmoved)
      (congrArg OnePass.State.table unmoved)⟩
  · obtain ⟨table, declares, given⟩ := gives_bind.mp given
    obtain ⟨rfl, same⟩ := Prod.mk.inj (gives_pure.mp given)
    have table : s'.table = table := congrArg OnePass.State.table same
    refine ⟨rfl, reaches.advance barrier (OnePass.State.moves_true.mp moves),
      congrArg OnePass.State.ahead same, ?_⟩
    rw [table]
    exact declares

/-- A statement is read and its check passes, if the bound is large enough for what is left of
the tape. -/
theorem comes_statementWithin {index depth : Nat} {opened : Symbol} {fuel fuel' : Nat}
    (le : fuel ≤ fuel') (enough : k < s.position + fuel) (fit : s.Fit tape loops)
    (inside : s.context = .function index depth opened) :
    (Parser.statementWithin fuel' tape s).Comes fun _ s' =>
      s.Performs tape k ⟨opened.name, opened.ty, depth⟩ loops
        (Stmt.parseWithin fuel last (ahead tape k s.position)) s' := by
  have few : (s.cursor.view tape k).ahead.length < fuel := by
    have length := barrier.length_ahead s.position
    have le := Clear.le barrier fit.clear
    change (ahead tape k s.position).length < fuel
    omega
  have progresses : OnePass.Progresses fuel fuel
      (OnePass.statementWithin ⟨opened.name, opened.ty, depth⟩ fuel) :=
    OnePass.progresses_statementWithin _ fuel (Nat.le_succ fuel)
  have keeps := progresses last (s.cursor.view tape k) few
  have comes := (follows_statementWithin barrier short fuel' loops s fit inside).comes barrier
    (Cursor.Parser.refines_statementWithin _ fuel fuel' le) fit.clear keeps
  refine comes.mono ?_
  rintro ⟨⟩ s' ⟨reaches, advances, given⟩
  have region : (s.cursor.view tape k).region = .body depth := congrArg Context.region inside
  rw [OnePass.trace_statementWithin _ fuel last _ region] at given
  obtain ⟨table, checks, given⟩ := gives_bind.mp given
  obtain ⟨-, same⟩ := Prod.mk.inj (gives_pure.mp given)
  have table : s'.table = table := congrArg OnePass.State.table same
  refine ⟨reaches.advance barrier advances, congrArg OnePass.State.ahead same, ?_⟩
  rw [table]
  exact fit.loopDepth ▸ checks

end

end

end Guarded

end PlainC
