import PlainC.Proofs.Loops.Placing

set_option autoImplicit false

/-!
The statements that the parser enters in a program. Outside of functions none is entered; so
whatever is entered in a function is one of the visits of the check.
-/

namespace PlainC

/-- Behind the first declaration that is read come the others, unless it is refused. -/
theorem Program.visitsFrom_parseAllWithin (fuel : Nat) {last : Lexeme} {ts : List Lexeme}
    (declared : Declared) (some : ¬ts.isEmpty) :
    visitsFrom declared (Decl.parseAllWithin (fuel + 1) last ts).1 =
      (Decl.parse last ts).1.visits declared ++
        ((Decl.parse last ts).1.check declared).behind fun declared =>
          visitsFrom declared (Decl.parseAllWithin fuel last (Decl.parse last ts).2).1 := by
  rw [Decl.parseAllWithin_succ, if_neg some]
  rcases Decl.parse last ts with ⟨decl, rest⟩
  cases decl with
  | missing tried instead =>
    have refused : ∀ next : Declared → List Visit,
        ((Decl.missing tried instead).check declared).behind next = [] := by
      intro next
      refine List.eq_nil_iff_forall_not_mem.mpr fun visit among => ?_
      obtain ⟨_, given, -⟩ := Checked.mem_behind.mp among
      simp [Decl.check] at given
    simp only [visitsFrom, refused]
  | _ => rfl

namespace Guarded

open Cursor (Barrier Clear ahead)
open Cursor.Parser (atEnd expect match? restore resultType unlessEnded)
open Checked (gives_bind gives_pure gives_require mem_behind)

variable {tape : List Lexeme} {k : Nat} {last : Lexeme} {s s' : State} {α : Type}

theorem Context.not_isFunction_global : ¬Context.global.IsFunction := by
  rintro ⟨_, _, _, ⟨⟩⟩

/-! ### Parts of declarations -/

section

variable (barrier : Barrier tape k last) {loops : Nat}

theorem comes_declare {name : Name} {symbol : Symbol} :
    (Parser.declare name symbol tape s).Comes fun index s' => ∃ table : SymbolTable,
      index = s.table.size ∧ s' = { s with table } ∧ (s.table.declare name symbol).Gives table ∧
        table.heads = s.table.heads ++ [symbol.head] := by
  intro index s' ends
  rcases added : s.table.add symbol with ⟨previous | index', table⟩
  · obtain ⟨fault, run, -⟩ := declare_of_taken tape name added
    rw [run] at ends
    cases ends
  · obtain ⟨run, -⟩ := declare_of_free tape name added
    obtain ⟨rfl, heads⟩ := SymbolTable.heads_of_add added
    rw [run] at ends
    cases ends
    refine ⟨table, rfl, rfl, ?_, heads⟩
    rw [SymbolTable.declare, added]
    exact gives_pure.mpr rfl

theorem comes_countUp {count : Nat} (few : count + 1 < counterBound) :
    (Parser.countUp count tape s).Comes fun next s' => next = count + 1 ∧ s' = s := by
  rw [countUp_eq few]
  rintro _ _ ⟨⟩
  exact ⟨rfl, rfl⟩

theorem comes_update (change : State → State) :
    (Parser.update change tape s).Comes fun _ s' => s' = change s := by
  rintro _ _ ⟨⟩
  rfl

include barrier

theorem comes_expect (mark : Delimiter) (fit : s.Fit tape loops) :
    (Parser.lift (expect mark) tape s).Comes fun _ s' =>
      s.Reaches tape loops 0 s' ∧ s'.table = s.table ∧
        ahead tape k s'.position = (Parse.mark mark last (ahead tape k s.position)).2 ∧
        (Checked.requireMark mark (Parse.mark mark last (ahead tape k s.position)).1).Gives () :=
  comes_checked barrier (fun _ => Checked.requireMark mark) (Cursor.steady_expect mark)
    (Cursor.Parser.refines_expect mark)
    (fun limit last s _ =>
      (OnePass.keeps_expect limit last s mark).mono fun _ _ takes => takes.advances Nat.one_pos)
    (OnePass.trace_expect mark last) fit

theorem comes_resultType (fit : s.Fit tape loops) :
    (Parser.lift resultType tape s).Comes fun
      | none, _ => True
      | some ty, s' => s.Reaches tape loops 0 s' ∧ s'.table = s.table ∧
        ∃ result, (result.resolve s.table).Gives ty ∧
          ResultType.parse? last (ahead tape k s.position) =
            (some result, ahead tape k s'.position) := by
  have keeps : (OnePass.resultType last (s.cursor.view tape k)).Keeps 0 _ :=
    OnePass.keeps_resultType last _
  have comes := (follows_lift barrier Cursor.steady_resultType (.refl fit)).comes barrier
    Cursor.Parser.refines_resultType fit.clear keeps
  refine comes.mono ?_
  rintro (_ | ty) s' ⟨reaches, -, given⟩
  · trivial
  rcases read : ResultType.parse? last (ahead tape k s.position) with ⟨_ | result, rest⟩
  · rw [OnePass.trace_resultType_none read] at given
    cases gives_pure.mp given
  · rw [OnePass.trace_resultType_some read] at given
    obtain ⟨ty', resolved, given⟩ := gives_bind.mp given
    obtain ⟨same, view⟩ := Prod.mk.inj (gives_pure.mp given)
    obtain rfl := Option.some.inj same
    have table : s'.table = s.table := congrArg OnePass.State.table view
    have rest' : ahead tape k s'.position = rest := congrArg OnePass.State.ahead view
    exact ⟨reaches, table, result, resolved, by rw [rest']⟩

/-- The parameters that are read, of which there are none in front of a parenthesis. -/
theorem comes_params (index depth : Nat) (fit : s.Fit tape loops) :
    (Parser.params index depth tape s).Comes fun _ s' => s.Reaches tape loops 0 s' ∧
      ∃ params : Option (Separated (Slot Param)),
        (∀ result name opening,
          Decl.parseFunction result name opening last (ahead tape k s.position) =
            Decl.parseBehindParams result name opening params last (ahead tape k s'.position)) ∧
        (((params.map Separated.toList).getD []).foldlM (Param.declare index depth)
          s.table).Gives s'.table := by
  have progresses (limit) :
      OnePass.Progresses limit limit (OnePass.commas (OnePass.param index depth)) :=
    OnePass.progresses_commas fun last s _ => OnePass.keeps_param last s index depth
  have keeps := OnePass.keeps_unlessSeen .rightParen last (s.cursor.view tape k)
    ((progresses _ last (s.cursor.view tape k) (Nat.lt_succ_self _)).mono
      fun _ _ passed => passed.suffix)
  have comes := (follows_params barrier index depth fit).comes barrier
    (Cursor.Parser.refines_unlessSeen _
      (Cursor.Parser.refines_commas (Cursor.Parser.refines_param index depth))) fit.clear keeps
  refine comes.mono ?_
  rintro ⟨⟩ s' ⟨reaches, -, given⟩
  refine ⟨reaches, ?_⟩
  by_cases seen : ((ahead tape k s.position).headD last).value = .delimiter .rightParen
  · have none : (OnePass.unlessSeen .rightParen (OnePass.commas (OnePass.param index depth)) last
        (s.cursor.view tape k)).trace = pure ((), s.cursor.view tape k) := by
      simp [OnePass.unlessSeen, Parse.sees_apply, State.cursor, Cursor.State.view, seen,
        -List.headD_eq_head?_getD]
    rw [none] at given
    obtain ⟨-, same⟩ := Prod.mk.inj (gives_pure.mp given)
    have rest : ahead tape k s'.position = ahead tape k s.position :=
      congrArg OnePass.State.ahead same
    have table : s'.table = s.table := congrArg OnePass.State.table same
    refine ⟨.none, fun result name opening => ?_, ?_⟩
    · rw [rest, Decl.parseFunction_of_seen _ _ _ seen]
    · rw [table]
      exact gives_pure.mpr rfl
  · have some : (OnePass.unlessSeen .rightParen (OnePass.commas (OnePass.param index depth)) last
        (s.cursor.view tape k)).trace =
          (OnePass.commas (OnePass.param index depth) last (s.cursor.view tape k)).trace := by
      simp [OnePass.unlessSeen, Parse.sees_apply, State.cursor, Cursor.State.view, seen,
        -List.headD_eq_head?_getD]
    rw [some, OnePass.trace_commas (OnePass.trace_param index depth)] at given
    obtain ⟨table, declares, given⟩ := gives_bind.mp given
    obtain ⟨-, same⟩ := Prod.mk.inj (gives_pure.mp given)
    have rest : ahead tape k s'.position =
        (Separated.parse Param.parse last (ahead tape k s.position)).2 :=
      congrArg OnePass.State.ahead same
    have table : s'.table = table := congrArg OnePass.State.table same
    refine ⟨.some (Separated.parse Param.parse last (ahead tape k s.position)).1,
      fun result name opening => ?_, ?_⟩
    · rw [rest, Decl.parseFunction_of_not_seen _ _ _ seen]
    · rw [table]
      exact declares

end

namespace Tracked

variable {frames : List Frame} {visits : List Visit} {post : α → State → Prop}

theorem visits_get {next : State → Tracked α} (h : (next s).Visits frames tape s visits post) :
    (plain Parser.get >>= next).Visits frames tape s visits post :=
  ⟨h.entries, h.comes⟩

/-- Outside of functions it does not matter what is entered. -/
theorem Visits.outside {part : Tracked α} (h : part.Visits frames tape s visits post)
    (global : s.context = .global) : (Tracked.entering part).Visits frames tape s visits post :=
  h.entering fun inside => absurd (global ▸ inside) Context.not_isFunction_global

/-- A production declines. -/
theorem visits_undone (checkpoint : Nat) :
    (do
      lift (restore checkpoint)
      return false : Tracked Bool).Visits frames tape s visits fun _ _ => True :=
  (visits_last _).bind fun _ _ _ => visits_pure trivial

section

variable (barrier : Barrier tape k last) (short : tape.length < counterBound)
  (indexed : Indexed tape)

include barrier short indexed

theorem visits_compoundStatement (frames : List Frame) {loops index depth : Nat}
    {opened : Symbol} {opening : Place} {rest : List Lexeme} (fit : s.Fit tape loops)
    (inside : s.context = .function index depth opened)
    (first : ahead tape k s.position = ⟨.delimiter .leftBrace, opening⟩ :: rest) :
    compoundStatement.Visits frames tape s
      ((Parse.bounded (Items.parseWithin Stmt.parse) last rest).1.visits
        ⟨opened.name, opened.ty, depth⟩ loops s.table) fun found _ => found = true := by
  have nests : ∀ frames loops s, s.Fit tape loops → s.context = .function index depth opened →
      k < s.position + (k + 1) → statement.Visits frames tape s
        ((Stmt.parse last (ahead tape k s.position)).1.visits ⟨opened.name, opened.ty, depth⟩ loops
          s.table) fun _ s' =>
        s.Performs tape k ⟨opened.name, opened.ty, depth⟩ loops
          (Stmt.parse last (ahead tape k s.position)) s' := by
    intro frames loops s fit inside _
    have length := barrier.length_ahead s.position
    have tapeLength := barrier.length
    exact visits_bounded (visits_statementWithin barrier short indexed
      ((ahead tape k s.position).length + 1) (tape.length + 1) frames loops s (by omega) fit inside
      (by omega))
  have begins : ∀ loops (s : State), s.Fit tape loops → s.context = .function index depth opened →
      k < s.position + (k + 1) → s.IsAt tape (.stmt ⟨opened.name, opened.ty, depth⟩ loops s.table
        (Stmt.parse last (ahead tape k s.position)).1) := by
    intro loops s fit inside _
    have length := barrier.length_ahead s.position
    exact isAt_stmt barrier indexed fit inside (by omega)
  exact visits_compound barrier short indexed nests begins frames fit inside (by omega) first

/-- What of a function follows its parameters. Nothing is entered behind its body. -/
theorem visits_behindParams {result : ResultType} {name : Name} {opening : Place}
    {params : Option (Separated (Slot Param))} {closing : Slot Place} {body : Slot Block}
    {rest : List Lexeme} {index depth : Nat} {opened : Symbol} {next : Bool → Tracked Unit}
    (read : Decl.parseBehindParams result name opening params last (ahead tape k s.position) =
      (.function result name opening params closing body, rest))
    (fit : s.Fit tape 0) (inside : s.context = .function index depth opened)
    (ends : ∀ found s', (next found).Visits frames tape s' [] fun _ _ => True) :
    (lift (expect .rightParen) >>= fun _ => compoundStatement >>= next).Visits frames tape s
      ((Checked.requireMark .rightParen closing).behind fun _ =>
        (Checked.require (.mark .leftBrace) body).behind fun block =>
          block.items.visits ⟨opened.name, opened.ty, depth⟩ 0 s.table) fun _ _ => True := by
  have last' : ∀ visits found s', (next found).Visits frames tape s' visits fun _ _ => True :=
    fun _ found s' => (ends found s').forget (List.forall_mem_nil _)
  refine (visits_plain (comes_expect barrier .rightParen fit)).bind ?_
  rintro ⟨⟩ s₁ ⟨reaches, table, rest₁, closed⟩
  rcases hclosing : Parse.mark .rightParen last (ahead tape k s.position) with ⟨closing', middle⟩
  rw [hclosing] at rest₁ closed
  rcases Parse.token?_cases (.delimiter .leftBrace) last middle with
      ⟨brace, inner, rfl, hopen⟩ | ⟨other, -⟩
  · obtain ⟨⟨rfl, rfl⟩, -⟩ : (closing' = closing ∧ .found ⟨brace,
        (Parse.bounded (Items.parseWithin Stmt.parse) last inner).1,
        (Parse.mark .rightBrace last
          (Parse.bounded (Items.parseWithin Stmt.parse) last inner).2).1⟩ = body) ∧ _ = rest := by
      simpa [Decl.parseBehindParams, Block.parse, Block.parse?, Parse.mark?, hclosing, hopen]
        using read
    have block := visits_compoundStatement barrier short indexed frames reaches.fit
      (reaches.context.trans inside) rest₁
    rw [table] at block
    refine (block.mono (fun visit among => ?_) fun _ _ => id).bind fun found s₂ _ =>
      last' _ found s₂
    exact mem_behind.mpr ⟨(), closed, mem_behind.mpr ⟨_, gives_require.mpr rfl, among⟩⟩
  · have ended : ahead tape k s₁.position = middle := rest₁
    rw [← ended] at other
    exact (visits_compound_of_other barrier _ reaches.fit other).bind fun found s₂ _ =>
      last' _ found s₂

theorem visits_functionBody (frames : List Frame) {result : ResultType} {name : Name}
    {opening : Place} {params : Option (Separated (Slot Param))} {closing : Slot Place} {body : Slot Block}
    {rest : List Lexeme} {ty : Ty}
    (read : Decl.parseFunction result name opening last (ahead tape k s.position) =
      (.function result name opening params closing body, rest))
    (fit : s.Fit tape 0) (some : s.lastDepth < s.position)
    (resolved : (result.resolve s.table).Gives ty) :
    (functionBody ty name).Visits frames tape s
      (Declared.visitsOfFunction ⟨s.table, s.lastDepth⟩ result name
        ((params.map Separated.toList).getD []) closing body) fun _ _ => True := by
  have below := fit.position_lt barrier short
  refine visits_get ?_
  refine (visits_plain comes_declare).bind ?_
  rintro _ _ ⟨table, rfl, rfl, declared, heads⟩
  refine (visits_plain (comes_countUp (by omega))).bind ?_
  rintro _ _ ⟨rfl, rfl⟩
  refine (visits_plain (comes_update _)).bind ?_
  rintro _ _ rfl
  have inside : State.Fit tape 0
      { s with
        table, lastDepth := s.lastDepth + 1
        context := .function s.table.size (s.lastDepth + 1) (topLevelSymbol name .function ty) } :=
    { (fit.declared heads).fit with
      opened := ⟨SymbolTable.getElem?_heads_size heads, rfl⟩
      functions := some }
  refine (visits_plain (comes_params barrier _ _ inside)).bind ?_
  rintro _ s₁ ⟨reaches, params', read', given⟩
  obtain ⟨closing', body', rest', reads, -⟩ :=
    Decl.parseBehindParams_reads result name opening params' last (ahead tape k s₁.position)
  obtain ⟨⟨rfl, rfl, rfl⟩, rfl⟩ : (params' = params ∧ closing' = closing ∧ body' = body) ∧
      rest' = rest := by
    simpa using reads.symm.trans ((read' result name opening).symm.trans read)
  refine (visits_behindParams barrier short indexed reads reaches.fit reaches.context ?_).forget ?_
  · rintro (_ | _) s₂
    · exact visits_last _
    · exact (visits_last _).bind fun _ _ _ => visits_last _
  · intro visit among
    exact mem_behind.mpr ⟨ty, resolved, mem_behind.mpr ⟨table, declared,
      mem_behind.mpr ⟨s₁.table, given, among⟩⟩⟩

theorem visits_functionDeclaration (frames : List Frame) (fit : s.Fit tape 0)
    (global : s.context = .global)
    (noStruct : Decl.structHead? last (ahead tape k s.position) = (none, ahead tape k s.position)) :
    functionDeclaration.Visits frames tape s
      ((Decl.parse last (ahead tape k s.position)).1.visits ⟨s.table, s.lastDepth⟩)
      fun _ _ => True := by
  refine Visits.outside ?_ global
  refine visits_get ?_
  refine (visits_plain (comes_resultType barrier fit)).bind ?_
  rintro (_ | ty) s₁ h
  · exact visits_pure trivial
  obtain ⟨reaches₁, table₁, result, resolved, read₁⟩ := h
  refine (visits_plain (comes_read barrier (Cursor.reads_accept? rfl rfl) Cursor.steady_name?
    reaches₁.fit)).bind ?_
  rintro (_ | name) s₂ ⟨reaches₂, table₂, read₂⟩
  · exact visits_undone _
  refine visits_match? barrier _ nofun nofun reaches₂.fit
    (fun opening s₃ first reaches₃ table₃ => ?_) fun _ => visits_undone _
  have head : Decl.functionHead last (ahead tape k s.position) =
      (.ok (result, name, opening), ahead tape k s₃.position) := by
    simp [Decl.functionHead, read₁, Parse.name?, read₂, Parse.mark?, first, Parse.token?_of_head]
  obtain ⟨params, closing, body, rest, read, -⟩ :=
    Decl.parseFunction_reads result name opening last (ahead tape k s₃.position)
  have parsed : Decl.parse last (ahead tape k s.position) =
      (.function result name opening params closing body, rest) := by
    simp [Decl.parse, noStruct, head, read]
  have functions : s₃.lastDepth = s.lastDepth :=
    reaches₃.functions.trans (reaches₂.functions.trans reaches₁.functions)
  have table : s₃.table = s.table := table₃.trans (table₂.trans table₁)
  -- the parenthesis makes up for the function
  have some : s₃.lastDepth < s₃.position := by
    have before := fit.functions
    have far₁ := reaches₁.far
    have far₂ := reaches₂.far
    have far₃ := reaches₃.far
    omega
  have block := visits_functionBody barrier short indexed frames read reaches₃.fit some
    (table ▸ resolved)
  rw [table, functions] at block
  rw [parsed]
  exact block.bind fun _ _ _ => visits_pure trivial

end

/-! ### Structs -/

/-- Members are entered outside of all functions. -/
theorem visits_members {index : Nat} {opened : Symbol} (inside : s.context = .struct index opened) :
    members.Visits frames tape s visits fun _ _ => True := by
  refine visits_bounded ?_
  generalize tape.length + 1 = fuel
  induction fuel generalizing s with
  | zero => exact visits_last _
  | succ fuel ih =>
    have outside : ¬s.context.IsFunction := by
      rintro ⟨_, _, _, same⟩
      cases inside.symm.trans same
    have declares : varDeclaration.Visits frames tape s visits fun _ s' => s'.context = s.context :=
      (visits_plain fun _ _ ends => (Parser.keeps_varDeclaration _ _ _ _ ends).2).entering
        fun isFunction => absurd isFunction outside
    have tested : member?.Visits frames tape s visits fun _ s' => s'.context = s.context := by
      refine declares.bind ?_
      rintro (_ | _) s' same <;> exact visits_pure same
    refine tested.bind ?_
    rintro (_ | ⟨⟩) s' same
    · exact visits_pure trivial
    have stays : (pure () : Tracked Unit).Visits frames tape s' visits fun _ s'' =>
        s''.context = s'.context := visits_pure rfl
    exact stays.bind fun _ s'' same' => ih (same'.trans (same.trans inside))

theorem visits_structBody (name : Name) :
    (structBody name).Visits frames tape s visits fun _ _ => True := by
  refine visits_get ?_
  cases s.table.find? name.value with
  | some previous => exact visits_last _
  | none =>
    refine (visits_last _).bind fun _ s₁ _ => ?_
    refine (visits_plain (comes_update _)).bind ?_
    rintro _ _ rfl
    refine (visits_members rfl).bind fun _ _ _ => ?_
    refine (visits_last _).bind fun _ _ _ => ?_
    exact (visits_last _).bind fun _ _ _ => visits_last _

theorem visits_structDeclaration (global : s.context = .global) :
    structDeclaration.Visits frames tape s visits fun _ _ => True := by
  refine Visits.outside ?_ global
  refine visits_get ?_
  refine (visits_last _).bind ?_
  rintro (_ | word) s₁ -
  · exact visits_pure trivial
  refine (visits_last _).bind fun name s₂ _ => ?_
  refine (visits_last _).bind ?_
  rintro (_ | opening) s₃ -
  · exact visits_undone _
  · exact (visits_structBody name).bind fun _ _ _ => visits_pure trivial

/-! ### Programs -/

section

variable (barrier : Barrier tape k last) (short : tape.length < counterBound)

include barrier short

/-- A struct is declared, or the parser is where it was and no struct begins there. -/
theorem comes_structDeclaration {loops : Nat} (fit : s.Fit tape loops) :
    (Parser.structDeclaration tape s).Comes fun found s' => found = false → s' = s ∧
      Decl.structHead? last (ahead tape k s.position) = (none, ahead tape k s.position) := by
  have keeps := OnePass.keeps_structDeclaration last (s.cursor.view tape k) (Nat.le_refl _)
  have comes := (follows_structDeclaration barrier short fit).comes barrier
    Cursor.Parser.refines_structDeclaration fit.clear keeps
  refine comes.mono ?_
  rintro _ s' ⟨reaches, moves, given⟩ rfl
  have unmoved := OnePass.State.moves_false.mp moves
  refine ⟨reaches.eq_of_ahead barrier fit (congrArg OnePass.State.ahead unmoved)
    (congrArg OnePass.State.table unmoved), ?_⟩
  obtain ⟨word, name, opening, rest, -, traced⟩ | ⟨noStruct, -⟩ |
    ⟨word, instead, rest, noStruct, -⟩ := OnePass.trace_structDeclaration last (s.cursor.view tape k)
  · rw [traced] at given
    obtain ⟨found, -, given⟩ := gives_bind.mp given
    cases gives_pure.mp given
  · exact noStruct
  · exact noStruct

/-- A declaration is read and its check passes. -/
theorem comes_declaration (fit : s.Fit tape 0) (global : s.context = .global) :
    (Parser.declaration tape s).Comes fun _ s' =>
      s'.Fit tape 0 ∧ s'.context = .global ∧ s.position < s'.position ∧
        ahead tape k s'.position = (Decl.parse last (ahead tape k s.position)).2 ∧
        ((Decl.parse last (ahead tape k s.position)).1.check ⟨s.table, s.lastDepth⟩).Gives
          ⟨s'.table, s'.lastDepth⟩ := by
  have keeps := OnePass.keeps_declaration last (s.cursor.view tape k) (Nat.le_refl _)
  have comes := (follows_declaration barrier short fit).comes barrier
    Cursor.Parser.refines_declaration fit.clear keeps
  refine comes.mono ?_
  rintro ⟨⟩ s' ⟨⟨fit', context⟩, advances, given⟩
  have region : (s.cursor.view tape k).region = .topLevel := congrArg Context.region global
  rw [OnePass.trace_declaration last _ region fit.loopDepth] at given
  obtain ⟨declared, checks, given⟩ := gives_bind.mp given
  obtain ⟨-, same⟩ := Prod.mk.inj (gives_pure.mp given)
  have table : s'.table = declared.table := congrArg OnePass.State.table same
  have functions : s'.lastDepth = declared.depth := congrArg OnePass.State.functions same
  refine ⟨fit', context.trans global, ?_, congrArg OnePass.State.ahead same, ?_⟩
  · have shorter : (ahead tape k s'.position).length < (ahead tape k s.position).length :=
      advances.length
    rw [barrier.length_ahead, barrier.length_ahead] at shorter
    omega
  · rw [table, functions]
    exact checks

variable (indexed : Indexed tape)

include indexed

theorem visits_declaration (frames : List Frame) (fit : s.Fit tape 0)
    (global : s.context = .global) :
    declaration.Visits frames tape s
      ((Decl.parse last (ahead tape k s.position)).1.visits ⟨s.table, s.lastDepth⟩) fun _ s' =>
      s'.Fit tape 0 ∧ s'.context = .global ∧ s.position < s'.position ∧
        ahead tape k s'.position = (Decl.parse last (ahead tape k s.position)).2 ∧
        ((Decl.parse last (ahead tape k s.position)).1.check ⟨s.table, s.lastDepth⟩).Gives
          ⟨s'.table, s'.lastDepth⟩ := by
  have comes := comes_declaration barrier short fit global
  rw [← parser_declaration] at comes
  have entered : declaration.Visits frames tape s
      ((Decl.parse last (ahead tape k s.position)).1.visits ⟨s.table, s.lastDepth⟩)
      fun _ _ => True := by
    refine Visits.outside ?_ global
    have struct := comes_structDeclaration barrier short fit
    rw [← parser_structDeclaration] at struct
    refine ((visits_structDeclaration global).come struct).bind ?_
    rintro (_ | _) s₁ h
    case true => exact visits_pure trivial
    obtain ⟨rfl, noStruct⟩ := h rfl
    have kept : (functionDeclaration.parser tape s₁).Comes fun _ s' => s'.context = s₁.context :=
      (counts_functionDeclaration fit.loopDepth).context
    have function := visits_functionDeclaration barrier short indexed frames fit global noStruct
    refine (function.come kept).bind ?_
    rintro (_ | _) s₂ same
    case true => exact visits_pure trivial
    refine Visits.bind ((visits_last _).outside (same.trans global)) ?_
    rintro (_ | _) s₃ -
    · exact visits_last _
    · exact visits_pure trivial
  exact entered.come comes

/-- The declarations that are read, up to one that is refused. -/
theorem visits_declarationsWithin : ∀ fuel fuel' s, fuel ≤ fuel' → s.Fit tape 0 →
    s.context = .global → k < s.position + fuel →
    (repeating (lift (unlessEnded atEnd)) (fun _ _ => declaration) fuel' ()).Visits frames tape s
      (Program.visitsFrom ⟨s.table, s.lastDepth⟩
        (Decl.parseAllWithin fuel last (ahead tape k s.position)).1) fun _ _ => True := by
  intro fuel
  induction fuel with
  | zero =>
    intro _ s _ fit _ few
    exact absurd (Clear.le barrier fit.clear) (by omega)
  | succ fuel ih =>
    rintro (_ | fuel') s le fit global few
    · cases le
    have tested := comes_unlessEnded barrier Cursor.reads_atEnd Cursor.steady_atEnd
      (fun _ _ => rfl) fit
    refine (visits_plain tested).bind ?_
    rintro found s₁ ⟨rfl, ends⟩
    rcases found with _ | ⟨⟨⟩⟩
    · exact visits_pure trivial
    have some : ¬(ahead tape k s₁.position).isEmpty := fun none => nomatch ends.mpr none
    rw [Program.visitsFrom_parseAllWithin _ _ some]
    have first := visits_declaration barrier short indexed frames fit global
    refine (first.mono (fun _ => List.mem_append_left _) fun _ _ => id).bind ?_
    rintro ⟨⟩ s₂ ⟨fit₂, global₂, far, rest, given⟩
    rw [← rest]
    refine (ih fuel' s₂ (by omega) fit₂ global₂ (by omega)).forget fun visit among => ?_
    exact List.mem_append_right _ (mem_behind.mpr ⟨_, given, among⟩)

theorem visits_program (frames : List Frame) (fit : s.Fit tape 0) (global : s.context = .global) :
    program.Visits frames tape s
      (Program.visitsFrom ⟨s.table, s.lastDepth⟩
        (Decl.parseAll last (ahead tape k s.position)).1) fun _ _ => True := by
  have length := barrier.length_ahead s.position
  have tapeLength := barrier.length
  have turns : declarations.Visits frames tape s _ fun _ _ => True :=
    visits_bounded (visits_declarationsWithin barrier short indexed
      ((ahead tape k s.position).length + 1) (tape.length + 1) s (by omega) fit global (by omega))
  exact turns.bind fun _ s₁ _ => visits_get (visits_pure trivial)

end

end Tracked

/-- Whatever of a function the parser enters, the check comes to it: with the same table, and with
as many loops around it as the counter says. -/
theorem exists_visit {tokens : List Token} (few : tokens.length < counterBound) :
    ∀ entry ∈ entries tokens, entry.entered.context.IsFunction →
      ∃ visit ∈ Program.visits tokens, entry.entered.IsAt (Lexeme.number 0 tokens) visit := by
  intro entry among inside
  rcases entries_cases tokens with none | ⟨ends, same, -⟩
  · rw [none] at among
    cases among
  obtain ⟨last, barrier, front⟩ := Cursor.exists_barrier ends
  obtain ⟨final, found, isEnd⟩ := Program.ends_iff.mp ends
  have short : (Lexeme.number 0 tokens).length < counterBound := by
    rwa [Lexeme.length_number]
  have indexed : Indexed (Lexeme.number 0 tokens) := by
    intro index lexeme found
    rw [Lexeme.getElem?_number, Option.map_eq_some_iff] at found
    obtain ⟨token, -, rfl⟩ := found
    exact Nat.zero_add index
  have decls : Program.decls tokens = (Decl.parseAll last (Program.front tokens)).1 := by
    simp only [Program.decls, found, isEnd, ne_eq, not_true_eq_false, if_false, barrier.at_end,
      Option.getD_some]
  have visits := Tracked.visits_program barrier short indexed [] (State.fit_outset _ .initial) rfl
  rw [same] at among
  obtain ⟨visit, among, isAt⟩ := visits.entries entry among inside
  refine ⟨visit, ?_, isAt⟩
  rw [Program.visits, decls, ← front]
  exact among

end Guarded

end PlainC
