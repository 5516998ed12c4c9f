import PlainC.Proofs.OnePass.Tracing.Expressions
import PlainC.Proofs.Reading.Stmt.Formed

set_option autoImplicit false

/-!
Declarations of variables and statements in one pass: here too, reading and checking at once comes to
the same as reading a tree and checking it behind that.
-/

namespace PlainC

/-- What is checked of the elements of an array does not depend on their positions. -/
theorem Initializer.checkElements_eq (table : SymbolTable) (element : Ty) (position : Nat)
    (args : Args) : checkElements table element args =
      args.checkEach table (OnePass.acceptElement element table) position := by
  cases args with
  | last arg => simp only [checkElements, checkElement, Args.checkEach, OnePass.acceptElement]
  | more arg comma rest =>
    simp only [checkElements, checkElement, Args.checkEach, OnePass.acceptElement,
      checkElements_eq table element (position + 1) rest, bind_assoc]

theorem Initializer.type_value (table : SymbolTable) (ty : Ty) (expr : Expr) :
    (value expr).type table ty =
      expr.type table >>= fun source => OnePass.acceptValue ty table expr.start source.ty := rfl

namespace OnePass

open Analysis

/-- The analysis is the reading of something that adds to the table and, behind it, its check. -/
def Declares {α : Type} (rule : Region → SymbolTable → α → Checked SymbolTable)
    (analysis : Analysis Unit) (parse : Parse α) : Prop :=
  ∀ last s, (analysis last s).trace =
    rule s.region s.table (parse last s.ahead).1 >>= fun table =>
      pure ((), { s with ahead := (parse last s.ahead).2, table })

/-! ### Commas -/

section

variable {α : Type} {rule : Region → SymbolTable → α → Checked SymbolTable} {item : Analysis Unit}
  {parse : Parse α}

theorem trace_commasRest (declares : Declares rule item parse) :
    ∀ fuel count, Declares (fun region table items => (items.map Prod.snd).foldlM (rule region) table)
      (repeating .commas (read (Parse.mark? .comma)) (fun _ _ => item) fuel count ())
      (Separated.parseRest parse fuel) := by
  intro fuel
  induction fuel with
  | zero => intro count last s; simp [repeating, Separated.parseRest]
  | succ fuel ih =>
    intro count last s
    rcases hcomma : Parse.mark? .comma last s.ahead with ⟨_ | comma, behind⟩
    · simp [repeating, Separated.parseRest, hcomma]
    · have first := declares last { s with ahead := behind }
      simp [repeating, Separated.parseRest, hcomma, first, ih (count + 1) last]

theorem trace_commas (declares : Declares rule item parse) :
    Declares (fun region table items => items.toList.foldlM (rule region) table)
      (commas item) (Separated.parse parse) := by
  intro last s
  simp [commas, Separated.parse, Separated.toList, Parse.bounded, declares last s,
    trace_commasRest declares _ _ last]

end

/-! ### Variables -/

theorem trace_initializer (ty : Ty) (last : Lexeme) (s : State) :
    (initializer ty last s).trace =
      (Initializer.parse last s.ahead).1.type s.table ty >>= fun ty =>
        pure (ty, { s with ahead := (Initializer.parse last s.ahead).2 }) := by
  rcases hopen : Parse.mark? .leftBrace last s.ahead with ⟨_ | opening, inside⟩
  · have start := Expr.parse_begins last inside
    simp [initializer, Initializer.parse, hopen, trace_expression last, Initializer.type_value,
      start]
  · rcases hclose : Parse.mark? .rightBrace last inside with ⟨_ | closing, rest⟩
    · simp [initializer, Initializer.parse, hopen, hclose, Expr.parseArgs, Parse.bounded,
        trace_arguments trace_expression Expr.parse_begins, Initializer.type,
        Initializer.checkElements_eq _ _ 0]
    · simp [initializer, Initializer.parse, hopen, hclose, Initializer.type]

theorem trace_declarator (base : Base) :
    Declares (fun region table declarator => declarator.declare region base table)
      (declarator base) Declarator.parse := by
  intro last s
  rcases hname : Parse.name last s.ahead with ⟨slot, behind⟩
  rcases harray : ArrayPart.parse last behind with ⟨array, middle⟩
  rcases hop : Parse.token? (.operator .assign) last middle with ⟨_ | op, inside⟩
  · simp [declarator, Declarator.parse, hname, harray, hop, initialized, Declarator.declare,
      Declarator.type]
  · cases hregion : s.region <;>
      simp [declarator, Declarator.parse, hname, harray, hop, initialized, Declarator.declare,
        Declarator.type, hregion, trace_initializer]

theorem trace_varDeclaration (last : Lexeme) (s : State) :
    (varDeclaration last s).trace =
      match VarDecl.parse? last s.ahead with
      | (none, rest) => pure (false, { s with ahead := rest })
      | (some decl, rest) =>
        decl.declare s.region s.table >>= fun table => pure (true, { s with ahead := rest, table }) := by
  rcases hbase : BaseName.parse? last s.ahead with ⟨_ | base, behind⟩
  · simp [varDeclaration, typeBase, VarDecl.parse?, hbase]
  · simp [varDeclaration, typeBase, VarDecl.parse?, VarDecl.parseBehind, hbase, VarDecl.declare,
      trace_commas (trace_declarator _) last]

/-! ### Expressions in statements -/

theorem trace_unused (last : Lexeme) (s : State) :
    (unused last s).trace =
      (Expr.parse last s.ahead).1.checkUnused s.table >>= fun _ =>
        pure ((), { s with ahead := (Expr.parse last s.ahead).2 }) := by
  simp [unused, trace_expression last s, Expr.checkUnused]

theorem trace_tested (last : Lexeme) (s : State) :
    (tested last s).trace =
      (Expr.parse last s.ahead).1.checkTested s.table >>= fun _ =>
        pure ((), { s with ahead := (Expr.parse last s.ahead).2 }) := by
  have start := Expr.parse_begins last s.ahead
  simp [tested, trace_expression last s, Expr.checkTested, start]

theorem trace_condition (last : Lexeme) (s : State) :
    (condition last s).trace =
      (Condition.parse last s.ahead).1.check s.table >>= fun _ =>
        pure ((), { s with ahead := (Condition.parse last s.ahead).2 }) := by
  rw [Condition.parse, Parse.bind_apply, Parse.bind_apply, Parse.bind_apply, Parse.pure_apply]
  simp only [condition, Condition.check, trace_bind, trace_expect, trace_tested, bind_assoc,
    pure_bind]

theorem trace_unlessSeen {analysis : Analysis Unit} {rule : SymbolTable → Expr → Checked Unit}
    (mark : Delimiter)
    (traces : ∀ last s, (analysis last s).trace =
      rule s.table (Expr.parse last s.ahead).1 >>= fun _ =>
        pure ((), { s with ahead := (Expr.parse last s.ahead).2 }))
    (last : Lexeme) (s : State) :
    (unlessSeen mark analysis last s).trace =
      (Expr.parseUnless mark last s.ahead).1.forM (rule s.table) >>= fun _ =>
        pure ((), { s with ahead := (Expr.parseUnless mark last s.ahead).2 }) := by
  by_cases seen : (s.ahead.headD last).value = .delimiter mark
  · simp [unlessSeen, Expr.parseUnless_of_seen seen, Parse.sees_apply, seen,
      -List.headD_eq_head?_getD]
  · simp [unlessSeen, Expr.parseUnless_of_not_seen seen, Parse.sees_apply, seen, traces last,
      -List.headD_eq_head?_getD]

theorem trace_forHeader (last : Lexeme) (s : State) :
    (forHeader last s).trace =
      (ForHeader.parse last s.ahead).1.check s.table >>= fun _ =>
        pure ((), { s with ahead := (ForHeader.parse last s.ahead).2 }) := by
  simp [forHeader, ForHeader.parse, ForHeader.check, trace_unlessSeen _ trace_unused,
    trace_unlessSeen _ trace_tested]

/-! ### Statements -/

/-- In a function, the analysis is the reading of a statement and, behind it, its check. -/
def Performs (scope : FunctionScope) (analysis : Analysis Unit) (parse : Parse Stmt) : Prop :=
  ∀ last s, s.region = .body scope.depth → (analysis last s).trace =
    (parse last s.ahead).1.check scope s.loops s.table >>= fun table =>
      pure ((), { s with ahead := (parse last s.ahead).2, table })

theorem Performs.of_read {scope : FunctionScope} {analysis : Analysis Unit} {parse : Parse Stmt}
    (performs : Performs scope analysis parse) {last : Lexeme} {s : State} {stmt : Stmt}
    {rest : List Lexeme} (region : s.region = .body scope.depth)
    (h : parse last s.ahead = (stmt, rest)) :
    (analysis last s).trace =
      stmt.check scope s.loops s.table >>= fun table => pure ((), { s with ahead := rest, table }) := by
  simpa only [h] using performs last s region

section

variable (scope : FunctionScope)

theorem trace_returnValue (word : Place) :
    Performs scope (returnValue scope word) (Stmt.parseReturn word) := by
  intro last s region
  by_cases seen : (s.ahead.headD last).value = .delimiter .semicolon
  · simp [returnValue, Stmt.parseReturn, Expr.parseUnless_of_seen seen, Parse.sees_apply, seen,
      Stmt.check, -List.headD_eq_head?_getD]
  · simp [returnValue, Stmt.parseReturn, Expr.parseUnless_of_not_seen seen, Parse.sees_apply, seen,
      Stmt.check, trace_expression last, FunctionScope.checkReturn, acceptResult,
      -List.headD_eq_head?_getD]

theorem trace_breakLoop (word : Place) :
    Performs scope (breakLoop word) do return .breakLoop word (← Parse.mark .semicolon) := by
  intro last s _
  by_cases outside : s.loops = 0 <;> simp [breakLoop, Stmt.check, outside]

theorem trace_expressionStatement : Performs scope expressionStatement Stmt.parseExpr := by
  intro last s region
  by_cases begins : Expr.canBegin (s.ahead.headD last).value
  · simp [expressionStatement, Stmt.parseExpr_of_begins begins, begins, trace_unused, Stmt.check,
      -List.headD_eq_head?_getD]
  · simp [expressionStatement, Stmt.parseExpr, begins, Stmt.check, -List.headD_eq_head?_getD]

section

variable {scope} {nested : Analysis Unit} {parse : Parse Stmt}

theorem trace_item_of_decl {last : Lexeme} {s : State} {decl : VarDecl} {rest : List Lexeme}
    (some : s.ahead ≠ []) (hdecl : VarDecl.parse? last s.ahead = (.some decl, rest)) :
    (item nested last s).trace =
      decl.declare s.region s.table >>= fun table => pure ((), { s with ahead := rest, table }) := by
  simp [item, Parse.atEnd_apply, some, trace_varDeclaration, hdecl]

theorem trace_item_of_stmt {last : Lexeme} {s : State} (some : s.ahead ≠ [])
    (hdecl : VarDecl.parse? last s.ahead = (none, s.ahead)) :
    (item nested last s).trace = (nested last s).trace := by
  simp [item, Parse.atEnd_apply, some, trace_varDeclaration, hdecl]

/-- The items of a block and the brace behind them. Where the end of input comes instead of an item,
the brace is missing. -/
theorem trace_itemsWithin (performs : Performs scope nested parse) :
    ∀ fuel count last s, s.region = .body scope.depth →
      ((repeating .items (unlessEnded (Parse.sees (.delimiter .rightBrace)))
          (fun _ _ => item nested) fuel count () last s).trace >>= fun found =>
        (expect .rightBrace last found.2).trace) =
      (Items.parseWithin parse fuel last s.ahead).1.check scope s.loops s.table >>= fun table =>
        (expect .rightBrace last
          { s with ahead := (Items.parseWithin parse fuel last s.ahead).2, table }).trace := by
  intro fuel
  induction fuel with
  | zero => intro count last s _; simp [repeating, Items.parseWithin, Items.check]
  | succ fuel ih =>
    intro count last s region
    by_cases brace : (s.ahead.headD last).value = .delimiter .rightBrace
    · have ended : (unlessEnded (Parse.sees (.delimiter .rightBrace)) last s).trace =
          pure (none, s) := by
        simp [Parse.sees_apply, brace, -List.headD_eq_head?_getD]
      rw [Items.parseWithin_of_end fun goesOn => goesOn.1 brace, trace_repeating_of_none ended]
      simp [Items.check]
    have begun : (unlessEnded (Parse.sees (.delimiter .rightBrace)) last s).trace =
        pure (some (), s) := by
      simp [Parse.sees_apply, brace, -List.headD_eq_head?_getD]
    rw [trace_repeating_of_some begun]
    -- at the end of input the item misses the brace, as the end of the block does in the tree
    by_cases atEnd : s.ahead = []
    · rw [Items.parseWithin_of_end fun goesOn => goesOn.2 atEnd]
      simp [atEnd, item, Parse.atEnd_apply, Items.check, Parse.mark, Parse.token, Parse.token?,
        Parse.accept?, Checked.requireMark, Checked.require]
    have goesOn : Items.GoesOn last s.ahead := ⟨brace, atEnd⟩
    rcases VarDecl.parse?_cases last s.ahead with ⟨decl, rest, hdecl, -⟩ | ⟨-, hdecl⟩
    · have behind := fun table => ih (count + 1) last { s with ahead := rest, table } region
      rw [Items.parseWithin_of_decl goesOn hdecl rfl, trace_item_of_decl atEnd hdecl]
      simp only [bind_assoc, pure_bind, behind, Items.check]
      simp only [region]
    · have statement := performs last s region
      rcases hstmt : parse last s.ahead with ⟨stmt, rest⟩
      have behind := fun table => ih (count + 1) last { s with ahead := rest, table } region
      rw [trace_item_of_stmt atEnd hdecl, statement, hstmt]
      simp only [bind_assoc, pure_bind, behind]
      cases stmt with
      | missing instead =>
        rw [Items.parseWithin_of_missing goesOn hdecl hstmt]
        simp [Items.check, Stmt.check]
      | _ =>
        rw [Items.parseWithin_of_stmt goesOn hdecl hstmt (by simp) rfl]
        simp only [Items.check, bind_assoc]

theorem trace_compound_some (performs : Performs scope nested parse) {last : Lexeme} {s : State}
    (region : s.region = .body scope.depth) {block : Block} {rest : List Lexeme}
    (hblock : Block.parse? parse last s.ahead = (some block, rest)) :
    (compound nested last s).trace =
      (do
        let table ← block.items.check scope s.loops s.table
        Checked.requireMark .rightBrace block.closing
        return table) >>= fun table => pure (true, { s with ahead := rest, table }) := by
  rcases hopen : Parse.mark? .leftBrace last s.ahead with ⟨_ | opening, inside⟩
  · simp [Block.parse?, hopen] at hblock
  · have items := trace_itemsWithin performs (inside.length + 1) 0 last { s with ahead := inside }
      region
    simp only [Block.parse?, Parse.bind_apply, hopen, Parse.pure_apply, Prod.mk.injEq,
      Option.some.injEq] at hblock
    obtain ⟨rfl, rfl⟩ := hblock
    simp only [compound, trace_bind, trace_read, hopen, pure_bind, OnePass.items, trace_bounded,
      trace_pure]
    rw [← bind_assoc, items]
    simp [Parse.bounded]

theorem trace_compound_none (nested : Analysis Unit) {last : Lexeme} {s : State} {rest : List Lexeme}
    (hblock : Block.parse? parse last s.ahead = (none, rest)) :
    (compound nested last s).trace = pure (false, { s with ahead := rest }) := by
  rcases hopen : Parse.mark? .leftBrace last s.ahead with ⟨_ | opening, inside⟩
  · obtain rfl : inside = rest := by simpa [Block.parse?, hopen] using hblock
    simp [compound, hopen]
  · simp [Block.parse?, hopen] at hblock

theorem trace_ifStatement (performs : Performs scope nested parse) (word : Place) :
    Performs scope (ifStatement nested) (Stmt.parseIf parse word) := by
  intro last s region
  rcases hcondition : Condition.parse last s.ahead with ⟨condition, behind⟩
  rcases hbody : parse last behind with ⟨body, middle⟩
  rcases helse : Parse.keyword? .elseKw last middle with ⟨_ | elseWord, rest⟩
  · simp [ifStatement, Stmt.parseIf, hcondition, trace_condition,
      performs last { s with ahead := behind } region, hbody, helse, Stmt.check]
  · have otherwise := fun table => performs last { s with ahead := rest, table } region
    simp [ifStatement, Stmt.parseIf, hcondition, trace_condition,
      performs last { s with ahead := behind } region, hbody, helse, Stmt.check, otherwise]

/-- In the body of a loop there is one loop more, behind it there is not. -/
theorem trace_loopBody (performs : Performs scope nested parse) (last : Lexeme) (s : State)
    (region : s.region = .body scope.depth) :
    (loopBody nested last s).trace =
      (parse last s.ahead).1.check scope (s.loops + 1) s.table >>= fun table =>
        pure ((), { s with ahead := (parse last s.ahead).2, table }) := by
  simp [loopBody, performs last { s with loops := s.loops + 1 } region]

end

theorem trace_whileStatement {nested : Analysis Unit} {parse : Parse Stmt}
    (performs : Performs scope nested parse) (word : Place) :
    Performs scope (whileStatement nested) (Stmt.parseWhile parse word) := by
  intro last s region
  have body := trace_loopBody performs last { s with ahead := (Condition.parse last s.ahead).2 } region
  rw [Stmt.parseWhile, Parse.bind_apply, Parse.bind_apply, Parse.pure_apply]
  simp only [whileStatement, Stmt.check, trace_bind, trace_condition, bind_assoc, pure_bind, body]

theorem trace_forStatement {nested : Analysis Unit} {parse : Parse Stmt}
    (performs : Performs scope nested parse) (word : Place) :
    Performs scope (forStatement nested) (Stmt.parseFor parse word) := by
  intro last s region
  have body := trace_loopBody performs last { s with ahead := (ForHeader.parse last s.ahead).2 } region
  rw [Stmt.parseFor, Parse.bind_apply, Parse.bind_apply, Parse.pure_apply]
  simp only [forStatement, Stmt.check, trace_bind, trace_forHeader, bind_assoc, pure_bind, body]

theorem trace_statementWithin :
    ∀ fuel, Performs scope (statementWithin scope fuel) (Stmt.parseWithin fuel) := by
  intro fuel
  induction fuel with
  | zero =>
    intro last s _
    simp [statementWithin, Stmt.parseWithin, Stmt.check]
  | succ fuel ih =>
    intro last s region
    rcases hblock : Block.parse? (Stmt.parseWithin fuel) last s.ahead with ⟨_ | block, rest⟩
    case some =>
      simp [statementWithin, Stmt.parseWithin, trace_compound_some ih region hblock, hblock,
        Stmt.check]
    obtain rfl : rest = s.ahead := by
      rcases Block.parse?_cases (Stmt.parseWithin_reader fuel) last s.ahead with
        ⟨_, _, found, -⟩ | ⟨-, found⟩ <;> simp_all
    have tried := trace_compound_none (statementWithin scope fuel) hblock
    rcases Parse.token?_cases (.keyword .ifKw) last s.ahead with ⟨word, rest, -, hif⟩ | ⟨-, hif⟩
    · simp [statementWithin, Stmt.parseWithin, tried, hblock, Parse.keyword?, hif,
        trace_ifStatement ih word last { s with ahead := rest } region]
    rcases Parse.token?_cases (.keyword .whileKw) last s.ahead with
        ⟨word, rest, -, hwhile⟩ | ⟨-, hwhile⟩
    · -- the tree gets a name, so that nothing unfolds how it is read
      rcases hstmt : Stmt.parseWhile (Stmt.parseWithin fuel) word last rest with ⟨stmt, behind⟩
      have body := (trace_whileStatement scope ih word).of_read (s := { s with ahead := rest })
        region hstmt
      simp [statementWithin, Stmt.parseWithin, tried, hblock, Parse.keyword?, hif, hwhile, hstmt,
        body]
    rcases Parse.token?_cases (.keyword .forKw) last s.ahead with ⟨word, rest, -, hfor⟩ | ⟨-, hfor⟩
    · simp [statementWithin, Stmt.parseWithin, tried, hblock, Parse.keyword?, hif, hwhile, hfor,
        trace_forStatement scope ih word last { s with ahead := rest } region]
    rcases Parse.token?_cases (.keyword .breakKw) last s.ahead with
        ⟨word, rest, -, hbreak⟩ | ⟨-, hbreak⟩
    · simp [statementWithin, Stmt.parseWithin, tried, hblock, Parse.keyword?, hif, hwhile, hfor,
        hbreak, trace_breakLoop scope word last { s with ahead := rest } region]
    rcases Parse.token?_cases (.keyword .returnKw) last s.ahead with
        ⟨word, rest, -, hreturn⟩ | ⟨-, hreturn⟩
    · simp [statementWithin, Stmt.parseWithin, tried, hblock, Parse.keyword?, hif, hwhile, hfor,
        hbreak, hreturn, trace_returnValue scope word last { s with ahead := rest } region]
    rcases Parse.token?_cases (.delimiter .semicolon) last s.ahead with
        ⟨semicolon, rest, -, hempty⟩ | ⟨-, hempty⟩
    · simp [statementWithin, Stmt.parseWithin, tried, hblock, Parse.keyword?, hif, hwhile, hfor,
        hbreak, hreturn, Parse.mark?, hempty, Stmt.check]
    · simp [statementWithin, Stmt.parseWithin, tried, hblock, Parse.keyword?, hif, hwhile, hfor,
        hbreak, hreturn, Parse.mark?, hempty, trace_expressionStatement scope last s region]

theorem trace_statement : Performs scope (statement scope) Stmt.parse :=
  fun last s => trace_statementWithin scope (s.ahead.length + 1) last s

end

end OnePass

end PlainC
