import PlainC.Proofs.Blocks.Points
import PlainC.Proofs.Regrouping.Program

set_option autoImplicit false

/-!
Blocks are transparent: the braces of a block that stands among the items of another one can be left
out, and braces can be put around items that follow each other. What is accepted is accepted as well
then, with an equal table; so a name that is declared in a block stays until the end of the function.
-/

namespace PlainC

open Checked

/-! ### Items behind items -/

/-- Items, and other ones behind them. -/
def Items.append : Items → Items → Items
  | .nil, behind => behind
  | .decl first rest, behind => .decl first (rest.append behind)
  | .stmt first rest, behind => .stmt first (rest.append behind)

instance : Append Items := ⟨Items.append⟩

namespace Items

@[simp] theorem nil_append (items : Items) : Items.nil ++ items = items := rfl

@[simp] theorem decl_append (decl : VarDecl) (rest items : Items) :
    Items.decl decl rest ++ items = .decl decl (rest ++ items) := rfl

@[simp] theorem stmt_append (stmt : Stmt) (rest items : Items) :
    Items.stmt stmt rest ++ items = .stmt stmt (rest ++ items) := rfl

theorem parts_append (items behind : Items) :
    (items ++ behind).parts = items.parts ++ behind.parts := by
  cases items with
  | nil => rfl
  | decl _ rest | stmt _ rest => simp [Items.parts, parts_append rest behind]

theorem formed_append {items behind : Items} :
    (items ++ behind).Formed ↔ items.Formed ∧ behind.Formed := by
  cases items with
  | nil => simp [Items.Formed]
  | decl _ _ | stmt _ _ => simp [Items.Formed, formed_append, and_assoc]

theorem check_append (behind : Items) (scope : FunctionScope) (loops : Nat) :
    ∀ (items : Items) (table : SymbolTable), (items ++ behind).check scope loops table =
      items.check scope loops table >>= behind.check scope loops
  | .nil, table => by simp [Items.check]
  | .decl _ rest, table | .stmt _ rest, table => by
    simp only [decl_append, stmt_append, Items.check, bind_assoc]
    exact bind_congr fun table => check_append behind scope loops rest table

/-- A block in front of other items passes just if what is in it does in its place, and if it is
closed. -/
theorem gives_check_block {opening : Place} {inner rest : Items} {closing : Slot Place}
    {scope : FunctionScope} {loops : Nat} {table table' : SymbolTable} :
    ((Items.stmt (.block opening inner closing) rest).check scope loops table).Gives table' ↔
      (∃ place, closing = .found place) ∧
        ((inner ++ rest).check scope loops table).Gives table' := by
  simp only [Items.check, Stmt.check, check_append, gives_bind, gives_pure, gives_requireMark]
  constructor
  · rintro ⟨middle, ⟨_, checked, _, closed, rfl⟩, others⟩
    exact ⟨closed, middle, checked, others⟩
  · rintro ⟨closed, middle, checked, others⟩
    exact ⟨middle, ⟨middle, checked, (), closed, rfl⟩, others⟩

/-! ### Other items at a point -/

/-- Other items can stand where the first ones do, behind the declaration of names: they are as well
formed, and turn out as said. -/
structure Refills (refused : Option (Cause → Prop)) (names : List String) (items items' : Items) :
    Prop where
  formed : items.Formed → items'.Formed
  gapless : Gapless items.parts → Gapless items'.parts
  turns : items.TurnsInto refused names items'

variable {names : List String} {inner rest : Items}

theorem refills_unbraced (opening : Place) (closing : Slot Place) :
    Refills none names (.stmt (.block opening inner closing) rest) (inner ++ rest) where
  formed := formed_append.mpr
  gapless complete := by
    simp only [Items.parts, Stmt.parts, parts_append, gapless_append] at complete ⊢
    exact ⟨complete.1.1.2, complete.2⟩
  turns _ _ _ _ _ given := (gives_check_block.mp given).2

theorem refills_braced (opening closing : Place) :
    Refills none names (inner ++ rest) (.stmt (.block opening inner (.found closing)) rest) where
  formed := formed_append.mp
  gapless complete := by
    simpa [Items.parts, Stmt.parts, parts_append] using complete
  turns _ _ _ _ _ given := gives_check_block.mpr ⟨⟨closing, rfl⟩, given⟩

/-- A name that is declared can be used. -/
theorem refills_reference (name : Name) (semicolon : Place) (mem : name.value ∈ names) :
    Refills none names rest (.stmt (.expr (.reference name) (.found semicolon)) rest) where
  formed h := ⟨trivial, h⟩
  gapless complete := by
    simpa [Items.parts, Stmt.parts, Expr.parts] using complete
  turns scope loops table table' held given := by
    obtain ⟨symbol, found, isVar, -⟩ := held.findsLocal mem
    have used : (Stmt.expr (.reference name) (.found semicolon)).check scope loops table
        |>.Gives table := by
      simp [Stmt.check, Expr.checkUnused, Expr.type, Expr.typeOfReference, Expr.lookUp, found, isVar]
    exact Turns.behind used given

/-- A name that is declared cannot be declared once more. -/
theorem refills_redefinition (base : BaseName) (name : Name) (semicolon : Place)
    (resolves : ∀ table : SymbolTable, ∃ type, (base.resolve table).Gives type)
    (complete : Gapless base.parts) (mem : name.value ∈ names) :
    Refills (some fun cause => ∃ line, cause = .violation (.redefinition name.value line)) names rest
      (.decl ⟨base, ⟨⟨.found name, .absent, none⟩, []⟩, .found semicolon⟩ rest) where
  formed h := by
    refine ⟨?_, h⟩
    rintro declarator among
    obtain rfl := List.mem_singleton.mp among
    exact ⟨trivial, nofun⟩
  gapless complete' := by
    simpa [Items.parts, VarDecl.parts, Declarator.parts, Separated.parts, Separated.restParts,
      ArrayPart.parts, optionalParts] using ⟨complete, complete'⟩
  turns scope loops table table' held given := by
    obtain ⟨type, resolved⟩ := resolves table
    let symbol := (Region.body scope.depth).variableSymbol name ⟨type, .scalar⟩
    have same : symbol.name = name.value := rfl
    obtain ⟨line, taken⟩ := (held.findsLocal mem).declare_eq same
    have declared : Declarator.declare (.body scope.depth) type table
        ⟨.found name, .absent, none⟩ = Checked.redefined name line := by
      simpa [Declarator.declare, Declarator.type, ArrayPart.extent, require, Region.declare]
        using taken
    refine Turns.before (a := table) (Turns.behind resolved ⟨⟨_, name.place⟩, ?_, line, rfl⟩) given
    simp only [Separated.toList, List.map_nil, List.foldlM_cons, declared, bind_assoc]
    rfl

end Items

/-! ### Programs -/

/-- The keyword of a number is a base type. -/
theorem Token.exists_baseName (token : Token)
    (h : token.kind ∈ [.keyword .intKw, .keyword .doubleKw, .keyword .charKw]) :
    ∃ base : BaseName, (∀ table : SymbolTable, ∃ type, (base.resolve table).Gives type) ∧
      Gapless base.parts ∧ lexemesOf base.parts = [⟨token.kind, ⟨0, token.span, token.line⟩⟩] := by
  simp only [List.mem_cons, List.not_mem_nil, or_false] at h
  rcases h with isInt | isDouble | isChar
  · exact ⟨.int _, fun _ => ⟨_, rfl⟩, rfl, by rw [isInt]; rfl⟩
  · exact ⟨.double _, fun _ => ⟨_, rfl⟩, rfl, by rw [isDouble]; rfl⟩
  · exact ⟨.char _, fun _ => ⟨_, rfl⟩, rfl, by rw [isChar]; rfl⟩

namespace Program

variable {tokens : List Token} {program : Program} {point : ProgramPoint} {items : Items}

/-- Of the tokens of an accepted program those at a point can be exchanged for the tokens of other
items that can stand there. -/
theorem ofTokens_refill (accepted : (ofTokens tokens).result = .ok program)
    (written : Written tokens (point.fill items)) :
    ∃ first here last, tokens = first ++ (here ++ last) ∧
      Lexeme.number 0 first = lexemesOf point.front ∧
      Lexeme.number first.length here = lexemesOf items.parts ∧
      (∀ token ∈ here, token.kind ≠ .endOfInput) ∧
      ∀ refused items' here', items.Refills refused point.declaredNames items' →
        (∀ token ∈ here', token.kind ≠ .endOfInput) →
        List.Forall₂ Token.StandsFor here' (lexemesOf items'.parts) →
        ∃ position, position + here.length = program.position + here'.length ∧
          Turns refused (ofTokens (first ++ (here' ++ last))) ⟨program.table, position⟩ := by
  have ends := ends_of_accepted accepted
  obtain ⟨given, position⟩ := (written.accepted_iff ends).mp accepted
  obtain ⟨before, final, behind, rfl, isEnd, others⟩ := exists_end ends
  have lexemes := written.lexemes.trans (front_eq isEnd others)
  rw [ProgramPoint.parts_fill] at lexemes
  obtain ⟨first, here, last, rfl, isFirst, isHere, exchange⟩ := Lexeme.exists_split lexemes
  rw [front_eq isEnd others, Lexeme.length_number] at position
  obtain ⟨othersFirst, othersRest⟩ := List.forall_mem_append.mp others
  obtain ⟨othersHere, othersLast⟩ := List.forall_mem_append.mp othersRest
  refine ⟨first, here, last ++ final :: behind, by simp, isFirst, isHere, othersHere, ?_⟩
  intro refused items' here' refills othersHere' standFor
  have complete := written.gapless
  rw [ProgramPoint.parts_fill, gapless_append, gapless_append] at complete
  have gapless : Gapless ((point.fill items').flatMap Decl.parts) := by
    rw [ProgramPoint.parts_fill, gapless_append, gapless_append]
    exact ⟨complete.1, refills.gapless complete.2.1, complete.2.2⟩
  -- behind the exchange the indices differ, but a token stands for a lexeme by kind and line
  have stand : List.Forall₂ Token.StandsFor (first ++ (here' ++ last))
      (lexemesOf ((point.fill items').flatMap Decl.parts)) := by
    rw [ProgramPoint.parts_fill]
    exact exchange items'.parts here' standFor
  have others' : ∀ token ∈ first ++ (here' ++ last), token.kind ≠ .endOfInput := by
    rw [List.forall_mem_append, List.forall_mem_append]
    exact ⟨othersFirst, othersHere', othersLast⟩
  have ends' : Ends (first ++ (here' ++ last) ++ final :: behind) :=
    (ends_append_cons _ _ _).mpr ((ends_append_cons _ _ _).mp ends)
  have turns := turns_of_standFor refused isEnd others' ends'
    (point.formed_fill refills.formed written.formed) gapless stand
    (ProgramPoint.turns_fill refills.turns given)
  rw [List.append_assoc, List.append_assoc] at turns
  refine ⟨_, ?_, turns⟩
  simp only [position, List.length_append]
  omega

/-- The braces of a block among other items can be left out. -/
theorem ofTokens_unbraced (accepted : (ofTokens tokens).result = .ok program) {opening : Place}
    {inner rest : Items} {closing : Slot Place}
    (written : Written tokens (point.fill (.stmt (.block opening inner closing) rest))) :
    ∃ first left middle right last, tokens = first ++ left :: (middle ++ right :: last) ∧
      Lexeme.number 0 first = lexemesOf point.front ∧
      left.kind = .delimiter .leftBrace ∧ right.kind = .delimiter .rightBrace ∧
      Lexeme.number (first.length + 1) middle = lexemesOf inner.parts ∧
      ∃ program', (ofTokens (first ++ (middle ++ last))).result = .ok program' ∧
        program'.table = program.table ∧ program'.position + 2 = program.position := by
  have complete := written.gapless
  rw [ProgramPoint.parts_fill] at complete
  cases closing with
  | missing => simp [Items.parts, Stmt.parts] at complete
  | found closing =>
    obtain ⟨first, here, last, rfl, isFirst, isHere, others, refill⟩ := ofTokens_refill accepted written
    simp only [Items.parts, Stmt.parts, Slot.parts, Delimiter.part, Kind.part, List.append_assoc,
      List.cons_append, List.nil_append, lexemesOf_found, lexemesOf_append] at isHere
    obtain ⟨left, _, rfl, isLeft, split⟩ := Lexeme.exists_of_number_eq_cons isHere
    obtain ⟨middle, _, rfl, isMiddle, split⟩ := Lexeme.exists_of_number_eq_append split
    obtain ⟨right, behind, rfl, isRight, isBehind⟩ := Lexeme.exists_of_number_eq_cons split
    have others' : ∀ token ∈ middle ++ behind, token.kind ≠ .endOfInput := by
      simp only [List.forall_mem_cons, List.forall_mem_append] at others ⊢
      exact ⟨others.2.1, others.2.2.2⟩
    have standFor : List.Forall₂ Token.StandsFor (middle ++ behind)
        (lexemesOf (inner ++ rest).parts) := by
      rw [Items.parts_append, lexemesOf_append, ← isMiddle, ← isBehind]
      exact List.rel_append (Lexeme.standsFor_number _ _) (Lexeme.standsFor_number _ _)
    obtain ⟨position, moved, turns⟩ :=
      refill none _ _ (Items.refills_unbraced opening (.found closing)) others' standFor
    refine ⟨first, left, middle, right, behind ++ last, by simp, isFirst, ?_, ?_, isMiddle,
      ⟨program.table, position⟩, ?_, rfl, ?_⟩
    · exact (congrArg At.value isLeft).symm
    · exact (congrArg At.value isRight).symm
    · rw [← List.append_assoc middle]
      exact turns
    · simp only [List.length_append, List.length_cons] at moved
      simp only
      omega

/-- Braces can be put around items that follow each other. -/
theorem ofTokens_braced (accepted : (ofTokens tokens).result = .ok program) {inner rest : Items}
    (written : Written tokens (point.fill (inner ++ rest))) :
    ∃ first middle last, tokens = first ++ (middle ++ last) ∧
      Lexeme.number 0 first = lexemesOf point.front ∧
      Lexeme.number first.length middle = lexemesOf inner.parts ∧
      ∀ left right : Token, left.kind = .delimiter .leftBrace →
        right.kind = .delimiter .rightBrace →
        ∃ program', (ofTokens (first ++ left :: (middle ++ right :: last))).result = .ok program' ∧
          program'.table = program.table ∧ program'.position = program.position + 2 := by
  obtain ⟨first, here, last, rfl, isFirst, isHere, others, refill⟩ := ofTokens_refill accepted written
  rw [Items.parts_append, lexemesOf_append] at isHere
  obtain ⟨middle, behind, rfl, isMiddle, isBehind⟩ := Lexeme.exists_of_number_eq_append isHere
  refine ⟨first, middle, behind ++ last, by simp, isFirst, isMiddle, ?_⟩
  intro left right isLeft isRight
  -- the braces can stand anywhere, as long as they are on their lines
  let place (token : Token) : Place := ⟨0, token.span, token.line⟩
  have others' : ∀ token ∈ left :: (middle ++ right :: behind), token.kind ≠ .endOfInput := by
    simp only [List.forall_mem_cons, List.forall_mem_append, isLeft, isRight] at others ⊢
    exact ⟨nofun, others.1, nofun, others.2⟩
  have standFor : List.Forall₂ Token.StandsFor (left :: (middle ++ right :: behind))
      (lexemesOf
        (Items.stmt (.block (place left) inner (.found (place right))) rest).parts) := by
    simp only [Items.parts, Stmt.parts, Slot.parts, Delimiter.part, Kind.part, List.append_assoc,
      List.cons_append, List.nil_append, lexemesOf_found, lexemesOf_append, ← isMiddle, ← isBehind]
    refine .cons ⟨isLeft, rfl⟩ (List.rel_append (Lexeme.standsFor_number _ _) (.cons ⟨isRight, rfl⟩ ?_))
    exact Lexeme.standsFor_number _ _
  obtain ⟨position, moved, turns⟩ :=
    refill none _ _ (Items.refills_braced (place left) (place right)) others' standFor
  refine ⟨⟨program.table, position⟩, ?_, rfl, ?_⟩
  · rw [show left :: (middle ++ right :: (behind ++ last)) =
      left :: (middle ++ right :: behind) ++ last by simp]
    exact turns
  · simp only [List.length_append, List.length_cons] at moved
    simp only
    omega

/-- A name that is declared in front of a point can be used there, but not be declared again. -/
theorem ofTokens_declared (accepted : (ofTokens tokens).result = .ok program)
    (written : Written tokens (point.fill items)) :
    ∃ first last, tokens = first ++ last ∧ Lexeme.number 0 first = lexemesOf point.front ∧
      ∀ name ∈ point.declaredNames, ∀ word semicolon : Token, word.kind = .identifier name →
        semicolon.kind = .delimiter .semicolon →
        (∃ program', (ofTokens (first ++ word :: semicolon :: last)).result = .ok program' ∧
          program'.table = program.table) ∧
        ∀ base : Token, base.kind ∈ [.keyword .intKw, .keyword .doubleKw, .keyword .charKw] →
          ∃ fault line, (ofTokens (first ++ base :: word :: semicolon :: last)).result =
              .error fault ∧
            fault.cause = .violation (.redefinition name line) := by
  obtain ⟨first, here, last, rfl, isFirst, isHere, others, refill⟩ := ofTokens_refill accepted written
  refine ⟨first, here ++ last, rfl, isFirst, ?_⟩
  intro name mem word semicolon isWord isSemicolon
  let place (token : Token) : Place := ⟨0, token.span, token.line⟩
  have standFor : List.Forall₂ Token.StandsFor here (lexemesOf items.parts) :=
    isHere ▸ Lexeme.standsFor_number _ _
  have isWord' : ∀ token ∈ word :: semicolon :: here, token.kind ≠ .endOfInput := by
    simpa [isWord, isSemicolon] using others
  constructor
  · obtain ⟨position, -, turns⟩ := refill none _ (word :: semicolon :: here)
      (Items.refills_reference ⟨name, place word⟩ (place semicolon) mem) isWord'
      (.cons ⟨isWord, rfl⟩ (.cons ⟨isSemicolon, rfl⟩ standFor))
    exact ⟨_, turns, rfl⟩
  · intro base isBase
    obtain ⟨baseName, resolves, complete, stands⟩ := base.exists_baseName isBase
    have isBase' : ∀ token ∈ base :: word :: semicolon :: here, token.kind ≠ .endOfInput := by
      refine List.forall_mem_cons.mpr ⟨?_, isWord'⟩
      rintro isEnd
      simp [isEnd] at isBase
    have stand : List.Forall₂ Token.StandsFor (base :: word :: semicolon :: here)
        (lexemesOf (Items.decl ⟨baseName, ⟨⟨.found ⟨name, place word⟩, .absent, none⟩, []⟩,
          .found (place semicolon)⟩ items).parts) := by
      simp only [Items.parts, VarDecl.parts, lexemesOf_append, stands]
      exact .cons ⟨rfl, rfl⟩ (.cons ⟨isWord, rfl⟩ (.cons ⟨isSemicolon, rfl⟩ standFor))
    obtain ⟨position, -, fault, failed, line, cause⟩ := refill _ _ _
      (Items.refills_redefinition baseName _ (place semicolon) resolves complete mem) isBase' stand
    exact ⟨fault, line, failed, cause⟩

/-- Blocks are transparent. Without the braces of a block among the items of another one, accepted
tokens are accepted with an equal table, and so they are with braces around any items that follow
each other. A name that is declared in a block can be used from then on until the end of the function,
and cannot be declared again there. -/
theorem ofTokens_braces (tokens : List Token) (program : Program)
    (accepted : (ofTokens tokens).result = .ok program) :
    (∃ decls, Written tokens decls) ∧
    (∀ point opening inner closing rest,
      Written tokens (ProgramPoint.fill point (.stmt (.block opening inner closing) rest)) →
      ∃ first left middle right last, tokens = first ++ left :: (middle ++ right :: last) ∧
        Lexeme.number 0 first = lexemesOf point.front ∧
        left.kind = .delimiter .leftBrace ∧ right.kind = .delimiter .rightBrace ∧
        Lexeme.number (first.length + 1) middle = lexemesOf inner.parts ∧
        ∃ program', (ofTokens (first ++ (middle ++ last))).result = .ok program' ∧
          program'.table = program.table ∧ program'.position + 2 = program.position) ∧
    (∀ point inner rest, Written tokens (ProgramPoint.fill point (inner ++ rest)) →
      ∃ first middle last, tokens = first ++ (middle ++ last) ∧
        Lexeme.number 0 first = lexemesOf point.front ∧
        Lexeme.number first.length middle = lexemesOf inner.parts ∧
        ∀ left right : Token, left.kind = .delimiter .leftBrace →
          right.kind = .delimiter .rightBrace →
          ∃ program', (ofTokens (first ++ left :: (middle ++ right :: last))).result = .ok program' ∧
            program'.table = program.table ∧ program'.position = program.position + 2) ∧
    ∀ point rest, Written tokens (ProgramPoint.fill point rest) →
      (point.items.fill rest).declaredNames.Nodup ∧
      ∃ first last, tokens = first ++ last ∧ Lexeme.number 0 first = lexemesOf point.front ∧
        ∀ name ∈ point.declaredNames, ∀ word semicolon : Token, word.kind = .identifier name →
          semicolon.kind = .delimiter .semicolon →
          (∃ program', (ofTokens (first ++ word :: semicolon :: last)).result = .ok program' ∧
            program'.table = program.table) ∧
          ∀ base : Token, base.kind ∈ [.keyword .intKw, .keyword .doubleKw, .keyword .charKw] →
            ∃ fault line, (ofTokens (first ++ base :: word :: semicolon :: last)).result =
                .error fault ∧
              fault.cause = .violation (.redefinition name line) := by
  refine ⟨exists_written accepted, ?_, ?_, ?_⟩
  · exact fun _ _ _ _ _ written => ofTokens_unbraced accepted written
  · exact fun _ _ _ written => ofTokens_braced accepted written
  · intro point rest written
    have given := ((written.accepted_iff (ends_of_accepted accepted)).mp accepted).1
    exact ⟨ProgramPoint.nodup_declaredNames given, ofTokens_declared accepted written⟩

/-- In `void f() { { int x; if (x) ; } x; }` the `if` still ends at its semicolon without the inner
braces. -/
theorem ofTokens_braces_if :
    let tokens : List Token := List.map (fun kind => ⟨kind, ⟨0, 0⟩, 1⟩)
      [.keyword .voidKw, .identifier "f", .delimiter .leftParen, .delimiter .rightParen,
        .delimiter .leftBrace, .delimiter .leftBrace, .keyword .intKw, .identifier "x",
        .delimiter .semicolon, .keyword .ifKw, .delimiter .leftParen, .identifier "x",
        .delimiter .rightParen, .delimiter .semicolon, .delimiter .rightBrace, .identifier "x",
        .delimiter .semicolon, .delimiter .rightBrace, .endOfInput]
    let tokens' : List Token := List.map (fun kind => ⟨kind, ⟨0, 0⟩, 1⟩)
      [.keyword .voidKw, .identifier "f", .delimiter .leftParen, .delimiter .rightParen,
        .delimiter .leftBrace, .keyword .intKw, .identifier "x",
        .delimiter .semicolon, .keyword .ifKw, .delimiter .leftParen, .identifier "x",
        .delimiter .rightParen, .delimiter .semicolon, .identifier "x",
        .delimiter .semicolon, .delimiter .rightBrace, .endOfInput]
    ∃ program program', (ofTokens tokens).result = .ok program ∧
      (ofTokens tokens').result = .ok program' ∧
      program'.table = program.table ∧ program'.position + 2 = program.position := by
  intro tokens tokens'
  obtain ⟨program, accepted⟩ : ∃ program, (ofTokens tokens).result = .ok program := ⟨_, rfl⟩
  obtain ⟨⟨decls, written⟩, unbraced, -, -⟩ := ofTokens_braces tokens program accepted
  let place (index : Nat) : Place := ⟨index, ⟨0, 0⟩, 1⟩
  let point : ProgramPoint :=
    ⟨[], .void (place 0), ⟨"f", place 1⟩, place 2, none, .found (place 3), place 4, .here,
      .found (place 17), []⟩
  let inner : Items := .decl ⟨.int (place 6), ⟨⟨.found ⟨"x", place 7⟩, .absent, none⟩, []⟩,
      .found (place 8)⟩
    (.stmt (.ifThen (place 9) ⟨.found (place 10), .reference ⟨"x", place 11⟩, .found (place 12)⟩
      (.empty (place 13))) .nil)
  let rest : Items := .stmt (.expr (.reference ⟨"x", place 15⟩) (.found (place 16))) .nil
  obtain rfl : decls = point.fill (.stmt (.block (place 5) inner (.found (place 14))) rest) :=
    (written.parseAll ⟨.endOfInput, place 18⟩).symm
  obtain ⟨first, left, middle, right, last, same, isFirst, -, -, isMiddle, program', accepted',
    table, position⟩ := unbraced point _ inner _ rest written
  have lengthFirst : first.length = 5 := by
    rw [← Lexeme.length_number 0 first, isFirst]
    rfl
  have lengthMiddle : middle.length = 8 := by
    rw [← Lexeme.length_number (first.length + 1) middle, isMiddle]
    rfl
  obtain ⟨rfl, behind⟩ := List.append_inj
    (show tokens.take 5 ++ tokens.drop 5 = first ++ left :: (middle ++ right :: last) from same)
    lengthFirst.symm
  obtain ⟨rfl, closed⟩ := List.append_inj
    (show (tokens.drop 6).take 8 ++ (tokens.drop 6).drop 8 = middle ++ right :: last from
      (List.cons.inj behind).2) lengthMiddle.symm
  obtain ⟨-, rfl⟩ := List.cons.inj closed
  exact ⟨program, program', accepted, accepted', table, position⟩

end Program

end PlainC
