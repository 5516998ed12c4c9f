import PlainC.Program
import PlainC.Proofs.Checking.Reports

set_option autoImplicit false

/-!
Gaps and checks. A tree is checked from left to right, so a check that passes has met no gap, and a
syntax error is that of the first gap.
-/

namespace PlainC

open Checked

/-! ### Types -/

theorem Size.reports_atOperator (place : Place) (value : Except Violation Int) :
    Reports (atOperator place value) [] := by
  cases value with
  | ok value => exact reports_pure value
  | error violation => exact reports_violate violation place []

theorem Size.reports_value (size : Size) : Reports size.value size.parts := by
  induction size with
  | literal text => exact reports_found.mpr (reports_ofLiteral text.place _)
  | signed sign operand ih =>
    exact reports_found.mpr (ih.before fun value => reports_atOperator sign.place _)
  | binary op left right ihLeft ihRight =>
    simp only [parts, List.append_assoc]
    refine ihLeft.bind fun l => reports_found.mpr ?_
    exact ihRight.before fun r => reports_atOperator op.place _
  | paren opening inner closing ih =>
    simp only [parts, List.append_assoc]
    refine reports_found.mpr (ih.bind fun value => ?_)
    exact (reports_requireMark .rightParen closing).before fun _ => reports_pure value
  | missing instead => exact reports_violate _ _ _

theorem BaseName.reports_resolve (table : SymbolTable) (base : BaseName) :
    Reports (base.resolve table) base.parts := by
  cases base with
  | int | double | char => exact reports_found.mpr (reports_pure _)
  | struct word slot =>
    apply reports_found.mpr
    rw [← List.append_nil (slot.parts namePart)]
    refine Reports.require .structName slot fun name => reports_found.mpr ?_
    split
    · exact reports_pure _
    · exact reports_violate _ _ _

theorem ArrayPart.reports_requireClosing (closing : Slot Place) :
    Reports (requireClosing closing) (closing.parts Delimiter.rightBracket.part) := by
  cases closing with
  | found place => exact reports_found.mpr (reports_pure ())
  | missing instead =>
    simp only [requireClosing]
    split
    · exact reports_violate _ _ _
    · exact reports_unexpected _ _ _

theorem ArrayPart.reports_extent (array : ArrayPart) : Reports array.extent array.parts := by
  cases array with
  | absent => exact reports_pure _
  | unsized opening closing => exact reports_found.mpr (reports_found.mpr (reports_pure _))
  | sized opening size closing =>
    simp only [parts, List.append_assoc]
    refine reports_found.mpr (size.reports_value.bind fun value => ?_)
    refine (reports_requireClosing closing).before fun _ => ?_
    split
    · exact reports_violate _ _ _
    · split
      · exact reports_violate _ _ _
      · exact reports_pure _

theorem TypeName.reports_resolve (table : SymbolTable) (name : TypeName) :
    Reports (name.resolve table) name.parts :=
  (name.base.reports_resolve table).bind fun _ =>
    name.array.reports_extent.before fun _ => reports_pure _

/-! ### Expressions -/

namespace Expr

section

variable (table : SymbolTable)

/-! The rules of types break no rule of grammar. -/

theorem reports_typeOfBinary (op : At Operator) (left right : Ty) :
    Reports (typeOfBinary table op left right) [] := by
  unfold typeOfBinary typeOfTest typeOfArithmetic invalidOperand
  repeat' split
  all_goals simp

theorem reports_typeOfUnary (op : At Operator) (ty : Ty) : Reports (typeOfUnary table op ty) [] := by
  unfold typeOfUnary invalidOperand
  repeat' split
  all_goals simp

theorem reports_typeOfAssign (start op : Place) (target : Operand) (value : Ty) :
    Reports (typeOfAssign table start op target value) [] := by
  unfold typeOfAssign
  repeat' split
  all_goals simp

theorem reports_typeOfCast (start : Place) (target value : Ty) :
    Reports (typeOfCast table start target value) [] := by
  unfold typeOfCast
  split
  all_goals simp

theorem reports_requireArray (opening : Place) (ty : Ty) :
    Reports (requireArray table opening ty) [] := by
  unfold requireArray
  split
  all_goals simp

theorem reports_requireIndex (start : Place) (ty : Ty) :
    Reports (requireIndex table start ty) [] := by
  unfold requireIndex
  split
  all_goals simp

theorem reports_typeOfMember (dot : Place) (record : Operand) (member : Name) :
    Reports (typeOfMember table dot record member) [] := by
  unfold typeOfMember
  repeat' split
  all_goals simp

theorem reports_lookUp (name : Name) : Reports (lookUp table name) [] := by
  unfold lookUp
  split
  all_goals simp

theorem reports_typeOfReference (name : Name) : Reports (typeOfReference table name) [] := by
  refine (reports_lookUp table name).behind fun symbol => ?_
  split
  all_goals simp

theorem reports_requireFunction (name : Name) : Reports (requireFunction table name) [] := by
  refine (reports_lookUp table name).behind fun symbol => ?_
  split
  all_goals simp

theorem reports_requireArgument (callee : Name) (params : List Symbol) (position : Nat)
    (start : Place) (ty : Ty) :
    Reports (requireArgument table callee params position start ty) [] := by
  unfold requireArgument
  repeat' split
  all_goals simp

theorem reports_typeOfCall (callee : Name) (symbol : Symbol) (given : Nat) :
    Reports (typeOfCall callee symbol given) [] := by
  unfold typeOfCall
  split
  all_goals simp

theorem reports_typeOfLiteral (form : LiteralForm) (text : Name) :
    Reports (typeOfLiteral form text) [] := by
  cases form with
  | integer | real | character =>
    exact (reports_ofLiteral text.place _).behind fun _ => reports_pure _
  | string =>
    refine (reports_ofLiteral text.place _).behind fun contents => ?_
    unfold typeOfText
    split
    all_goals simp

end

end Expr

mutual

theorem Expr.reports_type (table : SymbolTable) : ∀ expr : Expr, Reports (expr.type table) expr.parts
  | .literal form text => by
    simpa [Expr.type, Expr.parts] using Expr.reports_typeOfLiteral form text
  | .reference name => by
    simpa [Expr.type, Expr.parts] using Expr.reports_typeOfReference table name
  | .callEmpty callee opening closing => by
    simp only [Expr.type, Expr.parts]
    refine reports_found.mpr (reports_found.mpr (reports_found.mpr ?_))
    exact (Expr.reports_requireFunction table callee).behind fun symbol =>
      Expr.reports_typeOfCall callee symbol 0
  | .call callee opening args closing => by
    simp only [Expr.type, Expr.parts, List.append_assoc]
    refine reports_found.mpr (reports_found.mpr ?_)
    refine (Expr.reports_requireFunction table callee).behind fun symbol => ?_
    refine (Args.reports_check table callee symbol.args 0 args).bind fun _ => ?_
    exact (reports_requireMark .rightParen closing).before fun _ =>
      Expr.reports_typeOfCall callee symbol args.length
  | .paren opening inner closing => by
    simp only [Expr.type, Expr.parts, List.append_assoc]
    refine reports_found.mpr ((reports_write _).behind fun _ => ?_)
    refine (Expr.reports_type table inner).bind fun operand => ?_
    exact (reports_requireMark .rightParen closing).before fun _ => reports_pure operand
  | .element array opening index closing => by
    simp only [Expr.type, Expr.parts, List.append_assoc]
    refine (Expr.reports_type table array).bind fun base => reports_found.mpr ?_
    refine (Expr.reports_requireArray table opening base.ty).behind fun _ => ?_
    refine (Expr.reports_type table index).bind fun operand => ?_
    refine (Expr.reports_requireIndex table index.start operand.ty).behind fun _ => ?_
    exact (reports_requireMark .rightBracket closing).before fun _ => reports_pure _
  | .member record dot slot => by
    simp only [Expr.type, Expr.parts, List.append_assoc]
    refine (Expr.reports_type table record).bind fun operand => reports_found.mpr ?_
    rw [← List.append_nil (slot.parts namePart)]
    exact Reports.require .memberName slot fun name => reports_found.mpr
      (Expr.reports_typeOfMember table dot operand name)
  | .unary op operand => by
    simp only [Expr.type, Expr.parts]
    apply reports_found.mpr
    split
    · exact (Expr.reports_type table operand).withoutFirst.before fun value =>
        Expr.reports_typeOfUnary table op value.ty
    · exact (Expr.reports_type table operand).before fun value =>
        Expr.reports_typeOfUnary table op value.ty
  | .cast opening target closing operand => by
    simp only [Expr.type, Expr.parts, List.append_assoc]
    refine reports_found.mpr ((target.reports_resolve table).bind fun ty => ?_)
    refine (reports_requireMark .rightParen closing).bind fun _ => ?_
    exact (Expr.reports_type table operand).before fun value =>
      Expr.reports_typeOfCast table operand.start ty value.ty
  | .binary op left right => by
    simp only [Expr.type, Expr.parts, List.append_assoc]
    refine (Expr.reports_type table left).bind fun l => reports_found.mpr ?_
    exact (Expr.reports_type table right).before fun r =>
      Expr.reports_typeOfBinary table op l.ty r.ty
  | .assign target op value => by
    simp only [Expr.type, Expr.parts, List.append_assoc]
    refine (Expr.reports_type table target).bind fun t => reports_found.mpr ?_
    exact (Expr.reports_type table value).before fun v =>
      Expr.reports_typeOfAssign table target.start op t v.ty
  | .missing instead => by
    simp only [Expr.type, Expr.parts]
    exact reports_unexpected .expression instead []

theorem Args.reports_check (table : SymbolTable) (callee : Name) (params : List Symbol) :
    ∀ (position : Nat) (args : Args), Reports (args.check table callee params position) args.parts
  | position, .last arg => by
    simp only [Args.check, Args.parts]
    exact (Expr.reports_type table arg).before fun value =>
      Expr.reports_requireArgument table callee params position arg.start value.ty
  | position, .more arg comma rest => by
    simp only [Args.check, Args.parts, List.append_assoc]
    refine (Expr.reports_type table arg).bind fun value => reports_found.mpr ?_
    refine (Expr.reports_requireArgument table callee params position arg.start value.ty).behind
      fun _ => ?_
    exact Args.reports_check table callee params (position + 1) rest

end

/-! ### Declarations of variables -/

theorem reports_declare (table : SymbolTable) (name : Name) (symbol : Symbol) :
    Reports (table.declare name symbol) [] := by
  unfold SymbolTable.declare redefined
  split
  all_goals simp

theorem Region.reports_declare (region : Region) (table : SymbolTable) (name : Name) (ty : Ty) :
    Reports (region.declare table name ty) [] := by
  cases region with
  | topLevel | body => exact PlainC.reports_declare _ _ _
  | members index struct =>
    simp only [Region.declare, redefined]
    repeat' split
    all_goals simp

namespace Initializer

theorem reports_fit (start : Place) (ty : Ty) (count : Nat) : Reports (fit start ty count) [] := by
  unfold fit
  repeat' split
  all_goals simp

theorem reports_checkElement (table : SymbolTable) (element : Ty) (expr : Expr) :
    Reports (checkElement table element expr) expr.parts := by
  refine (expr.reports_type table).before fun value => ?_
  split
  all_goals simp

theorem reports_checkElements (table : SymbolTable) (element : Ty) (args : Args) :
    Reports (checkElements table element args) args.parts := by
  cases args with
  | last expr => exact reports_checkElement table element expr
  | more expr comma rest =>
    simp only [checkElements, Args.parts, List.append_assoc]
    refine (reports_checkElement table element expr).bind fun _ => reports_found.mpr ?_
    exact reports_checkElements table element rest

theorem reports_requireArray (table : SymbolTable) (opening : Place) (ty : Ty) :
    Reports (requireArray table opening ty) [] := by
  unfold requireArray
  split
  all_goals simp

theorem reports_type (table : SymbolTable) (ty : Ty) (init : Initializer) :
    Reports (init.type table ty) init.parts := by
  cases init with
  | value expr =>
    refine (expr.reports_type table).before fun source => reports_unless ?_
    split
    · exact reports_fit _ _ _
    · exact reports_pure _
  | elements opening args closing =>
    simp only [Initializer.parts, List.append_assoc]
    refine reports_found.mpr ((reports_requireArray table opening ty).behind fun _ => ?_)
    refine (reports_checkElements table ty.element args).bind fun _ => ?_
    exact (reports_requireMark .rightBrace closing).before fun _ => reports_fit _ _ _
  | noElements opening closing =>
    refine reports_found.mpr (reports_found.mpr ?_)
    exact (reports_requireArray table opening ty).behind fun _ => reports_fit _ _ _

end Initializer

theorem Declarator.reports_type (region : Region) (table : SymbolTable) (name : Name) (base : Base)
    (declarator : Declarator) :
    Reports (declarator.type region table name base) (declarator.array.parts ++ optionalParts
      (fun (op, init) => (Kind.operator .assign).part op ++ init.parts) declarator.initializer) := by
  refine declarator.array.reports_extent.bind fun extent => ?_
  split
  · simp_all [optionalParts]
  · rename_i op init same
    simp only [same, optionalParts, Option.map_some, Option.getD_some]
    apply reports_found.mpr
    split
    · exact reports_violate _ _ _
    · exact init.reports_type _ _

theorem Declarator.reports_declare (region : Region) (base : Base) (table : SymbolTable)
    (declarator : Declarator) :
    Reports (declarator.declare region base table) declarator.parts := by
  simp only [Declarator.parts, List.append_assoc]
  refine Reports.require .variableName declarator.name fun name => reports_found.mpr ?_
  exact (declarator.reports_type region table name base).before fun ty =>
    Region.reports_declare region table name ty

theorem VarDecl.reports_declare (region : Region) (table : SymbolTable) (decl : VarDecl) :
    Reports (decl.declare region table) decl.parts := by
  simp only [VarDecl.parts, List.append_assoc]
  refine (decl.base.reports_resolve table).bind fun base => Reports.bind ?_ fun table => ?_
  · rw [reports_congr (decl.declarators.firstGap?_parts Declarator.parts)]
    exact reports_foldlM (fun table declarator => declarator.reports_declare region base table) _ _
  · exact (reports_requireMark .semicolon decl.semicolon).before fun _ => reports_pure table

/-! ### Statements -/

theorem Expr.reports_checkTested (table : SymbolTable) (expr : Expr) :
    Reports (expr.checkTested table) expr.parts := by
  refine (expr.reports_type table).before fun value => reports_unless ?_
  split
  all_goals simp

theorem Expr.reports_checkUnused (table : SymbolTable) (expr : Expr) :
    Reports (expr.checkUnused table) expr.parts :=
  (expr.reports_type table).before fun _ => reports_pure ()

theorem reports_optional {check : Expr → Checked Unit}
    (reports : ∀ expr : Expr, Reports (check expr) expr.parts) (value : Option Expr) :
    Reports (value.forM check) (optionalParts Expr.parts value) := by
  cases value with
  | none => exact reports_pure ()
  | some expr => exact reports expr

theorem Condition.reports_check (table : SymbolTable) (condition : Condition) :
    Reports (condition.check table) condition.parts := by
  simp only [Condition.parts, List.append_assoc]
  refine (reports_requireMark .leftParen condition.opening).bind fun _ => ?_
  refine (condition.expr.reports_checkTested table).bind fun _ => ?_
  exact reports_requireMark .rightParen condition.closing

theorem ForHeader.reports_check (table : SymbolTable) (header : ForHeader) :
    Reports (header.check table) header.parts := by
  simp only [ForHeader.parts, List.append_assoc]
  refine (reports_requireMark .leftParen header.opening).bind fun _ => ?_
  refine (reports_optional (Expr.reports_checkUnused table) header.first).bind fun _ => ?_
  refine (reports_requireMark .semicolon header.firstSemicolon).bind fun _ => ?_
  refine (reports_optional (Expr.reports_checkTested table) header.condition).bind fun _ => ?_
  refine (reports_requireMark .semicolon header.secondSemicolon).bind fun _ => ?_
  refine (reports_optional (Expr.reports_checkUnused table) header.step).bind fun _ => ?_
  exact reports_requireMark .rightParen header.closing

theorem FunctionScope.reports_checkReturn (scope : FunctionScope) (table : SymbolTable)
    (word : Place) (value : Option Expr) :
    Reports (scope.checkReturn table word value) (optionalParts Expr.parts value) := by
  cases value with
  | none =>
    simp only [checkReturn]
    split
    · exact reports_pure ()
    · exact reports_violate _ _ _
  | some expr =>
    refine (expr.reports_type table).before fun value => reports_unless ?_
    split
    all_goals simp

mutual

theorem Stmt.reports_check (scope : FunctionScope) :
    ∀ (loops : Nat) (table : SymbolTable) (stmt : Stmt),
      Reports (stmt.check scope loops table) stmt.parts
  | loops, table, .block opening items closing => by
    simp only [Stmt.check, Stmt.parts, List.append_assoc]
    refine reports_found.mpr ((Items.reports_check scope loops table items).bind fun table => ?_)
    exact (reports_requireMark .rightBrace closing).before fun _ => reports_pure table
  | loops, table, .ifThen word condition body => by
    simp only [Stmt.check, Stmt.parts, List.append_assoc]
    refine reports_found.mpr ((condition.reports_check table).bind fun _ => ?_)
    exact Stmt.reports_check scope loops table body
  | loops, table, .ifElse word condition body elseWord otherwise => by
    simp only [Stmt.check, Stmt.parts, List.append_assoc]
    refine reports_found.mpr ((condition.reports_check table).bind fun _ => ?_)
    refine (Stmt.reports_check scope loops table body).bind fun table => reports_found.mpr ?_
    exact Stmt.reports_check scope loops table otherwise
  | loops, table, .whileLoop word condition body => by
    simp only [Stmt.check, Stmt.parts, List.append_assoc]
    refine reports_found.mpr ((condition.reports_check table).bind fun _ => ?_)
    exact Stmt.reports_check scope (loops + 1) table body
  | loops, table, .forLoop word header body => by
    simp only [Stmt.check, Stmt.parts, List.append_assoc]
    refine reports_found.mpr ((header.reports_check table).bind fun _ => ?_)
    exact Stmt.reports_check scope (loops + 1) table body
  | loops, table, .breakLoop word semicolon => by
    simp only [Stmt.check, Stmt.parts]
    refine reports_found.mpr (reports_unless ?_)
    exact (reports_requireMark .semicolon semicolon).before fun _ => reports_pure table
  | loops, table, .returnValue word value semicolon => by
    simp only [Stmt.check, Stmt.parts, List.append_assoc]
    refine reports_found.mpr ((scope.reports_checkReturn table word value).bind fun _ => ?_)
    exact (reports_requireMark .semicolon semicolon).before fun _ => reports_pure table
  | loops, table, .empty semicolon => by
    simp [Stmt.check, Stmt.parts]
  | loops, table, .expr expr semicolon => by
    simp only [Stmt.check, Stmt.parts]
    refine (expr.reports_checkUnused table).bind fun _ => ?_
    exact (reports_requireMark .semicolon semicolon).before fun _ => reports_pure table
  | loops, table, .missing instead => by
    simp only [Stmt.check, Stmt.parts]
    exact reports_unexpected .statement instead []

theorem Items.reports_check (scope : FunctionScope) (loops : Nat) :
    ∀ (table : SymbolTable) (items : Items), Reports (items.check scope loops table) items.parts
  | table, .nil => by simp [Items.check, Items.parts]
  | table, .decl decl rest => by
    simp only [Items.check, Items.parts]
    exact (decl.reports_declare (.body scope.depth) table).bind fun table =>
      Items.reports_check scope loops table rest
  | table, .stmt stmt rest => by
    simp only [Items.check, Items.parts]
    exact (Stmt.reports_check scope loops table stmt).bind fun table =>
      Items.reports_check scope loops table rest

end

theorem Block.reports_check (scope : FunctionScope) (table : SymbolTable) (block : Block) :
    Reports (block.check scope table) block.parts := by
  simp only [Block.parts, List.append_assoc]
  refine reports_found.mpr ((block.items.reports_check scope 0 table).bind fun table => ?_)
  exact (reports_requireMark .rightBrace block.closing).before fun _ => reports_pure table

/-! ### Top-level declarations -/

theorem BaseName.reports_noteStruct (base : BaseName) : Reports base.noteStruct [] := by
  unfold noteStruct backtracked
  split
  · exact reports_write _
  · exact reports_pure ()

theorem ResultType.reports_noteStruct (result : ResultType) : Reports result.noteStruct [] := by
  cases result with
  | void => exact reports_pure ()
  | value base | array base => exact base.reports_noteStruct

theorem ResultType.reports_resolve (table : SymbolTable) (result : ResultType) :
    Reports (result.resolve table) result.parts := by
  cases result with
  | void word => exact reports_found.mpr (reports_pure _)
  | value base => exact (base.reports_resolve table).before fun _ => reports_pure _
  | array base star =>
    exact (base.reports_resolve table).bind fun _ => reports_found.mpr (reports_pure _)

theorem Param.reports_declare (index depth : Nat) (table : SymbolTable) (slot : Slot Param) :
    Reports (Param.declare index depth table slot) (slot.parts Param.parts) := by
  rw [← List.append_nil (slot.parts Param.parts)]
  refine Reports.require .parameterType slot fun param => ?_
  simp only [Param.parts, List.append_assoc, List.append_nil]
  refine (param.base.reports_resolve table).bind fun base => ?_
  refine Reports.require .parameterName param.name fun name => reports_found.mpr ?_
  refine param.array.reports_extent.before fun extent => ?_
  exact (PlainC.reports_declare table name _).behind fun table => reports_pure _

theorem Declared.reports_declareStruct (declared : Declared) (name : Name) (members : List VarDecl)
    (closing semicolon : Slot Place) :
    Reports (declared.declareStruct name members closing semicolon)
      (members.flatMap VarDecl.parts ++ (closing.parts Delimiter.rightBrace.part ++
        semicolon.parts Delimiter.semicolon.part)) := by
  unfold declareStruct
  split
  · exact reports_violate _ _ _
  refine (PlainC.reports_declare _ name _).behind fun table => ?_
  refine (reports_foldlM (VarDecl.reports_declare _) members table).bind fun table => ?_
  refine (reports_requireMark .rightBrace closing).bind fun _ => ?_
  refine (reports_requireMark .semicolon semicolon).before fun _ => ?_
  exact (reports_write _).behind fun _ => reports_pure _

theorem Declared.reports_declareFunction (declared : Declared) (result : ResultType) (name : Name)
    (params : Option (Separated (Slot Param))) (closing : Slot Place) (body : Slot Block) :
    Reports
      (declared.declareFunction result name ((params.map Separated.toList).getD []) closing body)
      (result.parts ++ (optionalParts (Separated.parts (Slot.parts Param.parts)) params ++
        (closing.parts Delimiter.rightParen.part ++ body.parts Block.parts))) := by
  refine (result.reports_resolve declared.table).bind fun ty => ?_
  refine (PlainC.reports_declare _ name _).behind fun table => Reports.bind ?_ fun table => ?_
  · cases params with
    | none => exact reports_pure table
    | some items =>
      simp only [optionalParts, Option.map_some, Option.getD_some]
      rw [reports_congr (items.firstGap?_parts _)]
      exact reports_foldlM (Param.reports_declare _ _) items.toList table
  refine (reports_requireMark .rightParen closing).bind fun _ => ?_
  rw [← List.append_nil (body.parts Block.parts)]
  refine Reports.require (.mark .leftBrace) body fun block => ?_
  rw [List.append_nil]
  refine (block.reports_check _ table).before fun table => ?_
  exact (reports_write _).behind fun _ => reports_pure _

theorem reports_noteFunction (tried : Nat) (start : Place) : Reports (noteFunction tried start) [] := by
  unfold noteFunction backtracked
  split
  · exact reports_pure ()
  · exact reports_write _

theorem Decl.reports_check (declared : Declared) (decl : Decl) :
    Reports (decl.check declared) decl.parts := by
  cases decl with
  | struct word name opening members closing semicolon =>
    simp only [Decl.parts, List.append_assoc]
    exact reports_found.mpr (reports_found.mpr (reports_found.mpr
      (declared.reports_declareStruct name members closing semicolon)))
  | function result name opening params closing body =>
    have h := result.reports_noteStruct.behind fun _ =>
      declared.reports_declareFunction result name params closing body
    refine (reports_congr ?_).mp h
    simp [Decl.parts]
  | vars tried decl =>
    have h := decl.base.reports_noteStruct.behind fun _ =>
      (decl.base.reports_resolve declared.table).bind fun _ =>
        (reports_noteFunction tried decl.base.start).behind fun _ =>
          (decl.reports_declare .topLevel declared.table).before fun table =>
            reports_pure { declared with table }
    -- the base type is resolved once more by the declaration itself
    refine (reports_congr ?_).mp h
    simp [Decl.parts, VarDecl.parts, ← Option.or_assoc]
  | missing tried instead =>
    exact (reports_noteFunction tried instead.place).behind fun _ =>
      reports_unexpected .declaration instead []

theorem Program.reports_tableOfDecls (decls : List Decl) :
    Reports (Program.tableOfDecls decls) (decls.flatMap Decl.parts) :=
  (reports_foldlM Decl.reports_check decls _).before fun _ => reports_pure _

end PlainC
