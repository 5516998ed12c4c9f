import PlainC.Proofs.Inserting.Expressions

set_option autoImplicit false

/-!
Declarations and statements in a table with symbols put in: they pass just if they pass without
these, and then make tables that differ by them.
-/

namespace PlainC

open Checked

variable {ins : Insertion} {table table' : SymbolTable}

/-! ### Variables -/

namespace Region

/-- The region with new numbers. -/
def renumber (ins : Insertion) : Region → Region
  | topLevel => topLevel
  | members index struct => members (ins.index index) struct
  | body depth => body (ins.depth depth)

/-- What is declared does not become a part of a symbol in front. -/
def Behind (ins : Insertion) : Region → Prop
  | members index _ => ins.front.length ≤ index
  | topLevel | body _ => True

theorem variableSymbol_renumber (region : Region) (name : Name) (ty : Ty) :
    (region.renumber ins).variableSymbol name (ty.renumber ins) =
      (region.variableSymbol name ty).renumber ins := by
  cases region <;> simp [renumber, variableSymbol, Symbol.renumber]

theorem agree_declare (h : table.Widened ins table') {region : Region}
    (behind : region.Behind ins) {name : Name} (spared : ins.Spares name.value) (ty : Ty) :
    Agree (SymbolTable.Widened ins) (region.declare table name ty)
      ((region.renumber ins).declare table' name (ty.renumber ins)) := by
  have symbol_eq : (region.renumber ins).variableSymbol name (ty.renumber ins) =
      (region.variableSymbol name ty).renumber ins := region.variableSymbol_renumber name ty
  cases region with
  | topLevel | body =>
    simp only [renumber] at symbol_eq ⊢
    simp only [Region.declare, symbol_eq]
    exact h.declare name spared
  | members index struct =>
    have base : (ty.renumber ins).base = .struct (ins.index index) ↔ ty.base = .struct index :=
      (Base.renumber_inj : ty.base.renumber ins = Base.renumber ins (.struct index) ↔ _)
    simp only [renumber] at symbol_eq ⊢
    simp only [Region.declare, symbol_eq, base]
    apply agree_broken
    rcases rel_cases (h.get? index) with ⟨none, none'⟩ | ⟨owner, owner', found, found', same⟩
    · simp only [none, none', Option.bind_none]
      exact related_pure (h.addMember behind)
    · simp only [found, found', Option.bind_some, same.member?]
      cases owner.member? name.value with
      | none => exact related_pure (h.addMember behind)
      | some previous => exact agree_violate ..

end Region

namespace Initializer

theorem agree_fit (start : Place) (ty : Ty) (count : Nat) :
    Agree (Ty.Renumbered ins) (fit start ty count) (fit start (ty.renumber ins) count) := by
  have extent : (ty.renumber ins).extent = ty.extent := rfl
  unfold fit
  rw [extent]
  cases ty.extent with
  | sized size => exact agree_broken (related_pure rfl)
  | unsized | scalar => exact related_pure rfl

theorem agree_requireArray (opening : Place) (ty : Ty) :
    Agree Eq (requireArray table opening ty) (requireArray table' opening (ty.renumber ins)) := by
  simp only [requireArray, Ty.isArray_renumber]
  exact agree_kept rfl

section

variable (h : table.Widened ins table')

include h

theorem agree_checkElement (element : Ty) (expr : Expr) (spares : ins.SparesAll expr.parts) :
    Agree Eq (checkElement table element expr)
      (checkElement table' (element.renumber ins) expr) := by
  apply (expr.agree_type h spares).bind
  rintro value _ rfl
  simp only [Operand.renumber, Ty.accepts_renumber]
  exact agree_broken (related_pure rfl)

theorem agree_checkElements (element : Ty) (args : Args) (spares : ins.SparesAll args.parts) :
    Agree Eq (checkElements table element args)
      (checkElements table' (element.renumber ins) args) := by
  cases args with
  | last expr => exact agree_checkElement h element expr spares
  | more expr comma rest =>
    simp only [Args.parts, Insertion.sparesAll_append] at spares
    apply (agree_checkElement h element expr spares.1.1).behind
    intro _
    exact agree_checkElements element rest spares.2

theorem agree_type (ty : Ty) (initializer : Initializer) (spares : ins.SparesAll initializer.parts) :
    Agree (Ty.Renumbered ins) (initializer.type table ty)
      (initializer.type table' (ty.renumber ins)) := by
  cases initializer with
  | noElements opening closing =>
    apply (agree_requireArray opening ty).behind
    intro _
    exact agree_fit opening ty 0
  | elements opening args closing =>
    simp only [parts, Insertion.sparesAll_append] at spares
    apply (agree_requireArray opening ty).behind
    intro _
    apply (agree_checkElements h ty.element args spares.1.2).behind
    intro _
    apply (agree_refl (requireMark .rightBrace closing)).behind
    intro _
    exact agree_fit opening ty args.length
  | value expr =>
    apply (expr.agree_type h spares).bind
    rintro source _ rfl
    simp only [Operand.renumber, Ty.accepts_renumber]
    apply agree_unless
    have extent : (source.ty.renumber ins).extent = source.ty.extent := rfl
    simp only [extent]
    cases source.ty.extent with
    | sized count => exact agree_fit expr.start ty count
    | unsized | scalar => exact related_pure rfl

end

end Initializer

theorem Declarator.agree_type (h : table.Widened ins table') (region : Region) (name : Name)
    (base : Base) (declarator : Declarator) (spares : ins.SparesAll declarator.parts) :
    Agree (Ty.Renumbered ins) (declarator.type region table name base)
      (declarator.type (region.renumber ins) table' name (base.renumber ins)) := by
  obtain ⟨slot, array, init⟩ := declarator
  apply (agree_refl array.extent).behind
  intro extent
  cases init with
  | none => exact related_pure rfl
  | some init =>
    obtain ⟨op, initializer⟩ := init
    simp only [parts, optionalParts, Option.map_some, Option.getD_some,
      Insertion.sparesAll_append] at spares
    cases region with
    | topLevel | body => exact initializer.agree_type h ⟨base, extent⟩ spares.2.2
    | members index struct => exact agree_violate ..

theorem Declarator.agree_declare {region : Region} (behind : region.Behind ins) (base : Base)
    (declarator : Declarator) (spares : ins.SparesAll declarator.parts)
    (h : table.Widened ins table') :
    Agree (SymbolTable.Widened ins) (declarator.declare region base table)
      (declarator.declare (region.renumber ins) (base.renumber ins) table') := by
  cases named : declarator.name with
  | missing instead =>
    simp only [declare, named]
    exact (agree_unexpected (R := fun _ _ => False) .variableName instead).bind fun _ _ => False.elim
  | found name =>
    have spared : ins.Spares name.value := by
      simp only [parts, named, Slot.parts, Insertion.sparesAll_append, Insertion.sparesAll_name]
        at spares
      exact spares.1.1
    simp only [declare, named, require, pure_bind]
    apply (declarator.agree_type h region name base spares).bind
    rintro ty _ rfl
    exact Region.agree_declare h behind spared ty

theorem VarDecl.agree_declare (decl : VarDecl) (spares : ins.SparesAll decl.parts) (region : Region)
    (behind : region.Behind ins) (h : table.Widened ins table') :
    Agree (SymbolTable.Widened ins) (decl.declare region table)
      (decl.declare (region.renumber ins) table') := by
  simp only [parts, Insertion.sparesAll_append] at spares
  apply (decl.base.agree_resolve h spares.1.1).bind
  rintro base _ rfl
  refine (related_foldlM (R := SymbolTable.Widened ins)
    (fun declarator among _ _ => declarator.agree_declare behind base
      (spares.1.2.of_mem_separated among)) h).bind ?_
  intro middle middle' widened
  apply (agree_refl (requireMark .semicolon decl.semicolon)).behind
  intro _
  exact related_pure widened

/-! ### Statements -/

/-- The function with a new depth. -/
def FunctionScope.renumber (ins : Insertion) (scope : FunctionScope) : FunctionScope :=
  { scope with result := scope.result.renumber ins, depth := ins.depth scope.depth }

section

variable (h : table.Widened ins table')

include h

theorem Expr.agree_checkTested (expr : Expr) (spares : ins.SparesAll expr.parts) :
    Agree Eq (expr.checkTested table) (expr.checkTested table') := by
  apply (expr.agree_type h spares).bind
  rintro value _ rfl
  simp only [Operand.renumber, Ty.isStruct_renumber, Ty.isVoid_renumber]
  apply agree_unless
  exact agree_broken (related_pure rfl)

theorem Expr.agree_checkUnused (expr : Expr) (spares : ins.SparesAll expr.parts) :
    Agree Eq (expr.checkUnused table) (expr.checkUnused table') :=
  (expr.agree_type h spares).bind fun _ _ _ => related_pure rfl

theorem Condition.agree_check (condition : Condition) (spares : ins.SparesAll condition.parts) :
    Agree Eq (condition.check table) (condition.check table') := by
  simp only [parts, Insertion.sparesAll_append] at spares
  apply (agree_refl (requireMark .leftParen condition.opening)).behind
  intro _
  apply (condition.expr.agree_checkTested h spares.1.2).behind
  intro _
  exact agree_refl _

omit h in
/-- An expression that may be absent. -/
theorem agree_optional {check check' : Expr → Checked Unit} {value : Option Expr}
    (agree : ∀ expr : Expr, ins.SparesAll expr.parts → Agree Eq (check expr) (check' expr))
    (spares : ins.SparesAll (optionalParts Expr.parts value)) :
    Agree Eq (value.forM check) (value.forM check') := by
  cases value with
  | none => exact related_pure rfl
  | some expr => exact agree expr spares

theorem ForHeader.agree_check (header : ForHeader) (spares : ins.SparesAll header.parts) :
    Agree Eq (header.check table) (header.check table') := by
  simp only [parts, Insertion.sparesAll_append] at spares
  obtain ⟨⟨⟨⟨⟨⟨-, first⟩, -⟩, condition⟩, -⟩, step⟩, -⟩ := spares
  apply (agree_refl (requireMark .leftParen header.opening)).behind
  intro _
  apply (agree_optional (Expr.agree_checkUnused h) first).behind
  intro _
  apply (agree_refl (requireMark .semicolon header.firstSemicolon)).behind
  intro _
  apply (agree_optional (Expr.agree_checkTested h) condition).behind
  intro _
  apply (agree_refl (requireMark .semicolon header.secondSemicolon)).behind
  intro _
  apply (agree_optional (Expr.agree_checkUnused h) step).behind
  intro _
  exact agree_refl _

theorem FunctionScope.agree_checkReturn (scope : FunctionScope) (word : Place)
    (value : Option Expr) (spares : ins.SparesAll (optionalParts Expr.parts value)) :
    Agree Eq (scope.checkReturn table word value)
      ((scope.renumber ins).checkReturn table' word value) := by
  cases value with
  | none =>
    simp only [checkReturn, renumber, Ty.isVoid_renumber]
    exact agree_kept rfl
  | some expr =>
    apply (expr.agree_type h spares).bind
    rintro value _ rfl
    simp only [renumber, Operand.renumber, Ty.isVoid_renumber, Ty.accepts_renumber]
    apply agree_unless
    exact agree_broken (related_pure rfl)

end

mutual

theorem Stmt.agree_check (scope : FunctionScope) : ∀ (stmt : Stmt) (loops : Nat)
    {table table' : SymbolTable}, ins.SparesAll stmt.parts → table.Widened ins table' →
      Agree (SymbolTable.Widened ins) (stmt.check scope loops table)
        (stmt.check (scope.renumber ins) loops table')
  | .block opening items closing, loops, _, _, spares, h => by
    simp only [Stmt.parts, Insertion.sparesAll_append] at spares
    apply (Items.agree_check scope items loops spares.1.2 h).bind
    intro middle middle' widened
    apply (agree_refl (requireMark .rightBrace closing)).behind
    intro _
    exact related_pure widened
  | .ifThen word condition body, loops, _, _, spares, h => by
    simp only [Stmt.parts, Insertion.sparesAll_append] at spares
    apply (condition.agree_check h spares.1.2).behind
    intro _
    exact Stmt.agree_check scope body loops spares.2 h
  | .ifElse word condition body elseWord otherwise, loops, _, _, spares, h => by
    simp only [Stmt.parts, Insertion.sparesAll_append] at spares
    apply (condition.agree_check h spares.1.1.1.2).behind
    intro _
    apply (Stmt.agree_check scope body loops spares.1.1.2 h).bind
    intro middle middle' widened
    exact Stmt.agree_check scope otherwise loops spares.2 widened
  | .whileLoop word condition body, loops, _, _, spares, h => by
    simp only [Stmt.parts, Insertion.sparesAll_append] at spares
    apply (condition.agree_check h spares.1.2).behind
    intro _
    exact Stmt.agree_check scope body (loops + 1) spares.2 h
  | .forLoop word header body, loops, _, _, spares, h => by
    simp only [Stmt.parts, Insertion.sparesAll_append] at spares
    apply (header.agree_check h spares.1.2).behind
    intro _
    exact Stmt.agree_check scope body (loops + 1) spares.2 h
  | .breakLoop word semicolon, loops, _, _, _, h => by
    apply agree_unless
    apply (agree_refl (requireMark .semicolon semicolon)).behind
    intro _
    exact related_pure h
  | .returnValue word value semicolon, loops, _, _, spares, h => by
    simp only [Stmt.parts, Insertion.sparesAll_append] at spares
    apply (scope.agree_checkReturn h word value spares.1.2).behind
    intro _
    apply (agree_refl (requireMark .semicolon semicolon)).behind
    intro _
    exact related_pure h
  | .empty semicolon, loops, _, _, _, h => related_pure h
  | .expr expr semicolon, loops, _, _, spares, h => by
    simp only [Stmt.parts, Insertion.sparesAll_append] at spares
    apply (expr.agree_checkUnused h spares.1).behind
    intro _
    apply (agree_refl (requireMark .semicolon semicolon)).behind
    intro _
    exact related_pure h
  | .missing instead, loops, _, _, _, h => agree_unexpected .statement instead

theorem Items.agree_check (scope : FunctionScope) : ∀ (items : Items) (loops : Nat)
    {table table' : SymbolTable}, ins.SparesAll items.parts → table.Widened ins table' →
      Agree (SymbolTable.Widened ins) (items.check scope loops table)
        (items.check (scope.renumber ins) loops table')
  | .nil, loops, _, _, _, h => related_pure h
  | .decl decl rest, loops, _, _, spares, h => by
    simp only [Items.parts, Insertion.sparesAll_append] at spares
    apply (decl.agree_declare spares.1 (.body scope.depth) trivial h).bind
    intro middle middle' widened
    exact Items.agree_check scope rest loops spares.2 widened
  | .stmt stmt rest, loops, _, _, spares, h => by
    simp only [Items.parts, Insertion.sparesAll_append] at spares
    apply (Stmt.agree_check scope stmt loops spares.1 h).bind
    intro middle middle' widened
    exact Items.agree_check scope rest loops spares.2 widened

end

theorem Block.agree_check (scope : FunctionScope) (block : Block) (spares : ins.SparesAll block.parts)
    (h : table.Widened ins table') :
    Agree (SymbolTable.Widened ins) (block.check scope table)
      (block.check (scope.renumber ins) table') := by
  simp only [parts, Insertion.sparesAll_append] at spares
  apply (block.items.agree_check scope 0 spares.1.2 h).bind
  intro middle middle' widened
  apply (agree_refl (requireMark .rightBrace block.closing)).behind
  intro _
  exact related_pure widened

/-! ### Declarations -/

/-- The tables differ by the symbols put in, and the numbers of functions by the functions among
them. -/
structure Declared.Widened (ins : Insertion) (declared declared' : Declared) : Prop where
  table : declared.table.Widened ins declared'.table
  functions_le : Insertion.functions ins.front ≤ declared.depth
  depth : declared'.depth = declared.depth + Insertion.functions ins.symbols

theorem ResultType.agree_resolve (h : table.Widened ins table') (result : ResultType)
    (spares : ins.SparesAll result.parts) :
    Agree (Ty.Renumbered ins) (result.resolve table) (result.resolve table') := by
  cases result with
  | void => exact related_pure rfl
  | value base =>
    apply (base.agree_resolve h spares).bind
    rintro base _ rfl
    exact related_pure rfl
  | array base star =>
    simp only [parts, Insertion.sparesAll_append] at spares
    apply (base.agree_resolve h spares.1).bind
    rintro base _ rfl
    exact related_pure rfl

theorem Param.agree_declare {index : Nat} (behind : ins.front.length ≤ index) (depth : Nat)
    (slot : Slot Param) (spares : ins.SparesAll (slot.parts Param.parts))
    (h : table.Widened ins table') :
    Agree (SymbolTable.Widened ins) (Param.declare index depth table slot)
      (Param.declare (ins.index index) (ins.depth depth) table' slot) := by
  match slot with
  | .missing instead =>
    exact (agree_unexpected (R := fun _ _ => False) .parameterType instead).bind
      fun _ _ => False.elim
  | .found ⟨base, named, array⟩ =>
    simp only [Slot.parts, Param.parts, Insertion.sparesAll_append] at spares
    simp only [Param.declare, require, pure_bind]
    apply (base.agree_resolve h spares.1.1).bind
    rintro base _ rfl
    cases named with
    | missing instead =>
      exact (agree_unexpected (R := fun _ _ => False) .parameterName instead).bind
        fun _ _ => False.elim
    | found name =>
      simp only [Insertion.sparesAll_name] at spares
      simp only [pure_bind]
      apply (agree_refl array.extent).behind
      intro extent
      have declared : Agree (SymbolTable.Widened ins)
          (table.declare name (Param.symbol depth name base extent))
          (table'.declare name ((Param.symbol depth name base extent).renumber ins)) :=
        h.declare name spares.1.2
      apply declared.bind
      intro middle middle' widened
      exact related_pure (widened.addArg behind)

namespace Declared.Widened

variable {declared declared' : Declared}

theorem declareStruct (h : declared.Widened ins declared') {name : Name} {members : List VarDecl}
    (closing semicolon : Slot Place) (spared : ins.Spares name.value)
    (spares : ins.SparesAll (members.flatMap VarDecl.parts)) :
    Agree (Declared.Widened ins) (declared.declareStruct name members closing semicolon)
      (declared'.declareStruct name members closing semicolon) := by
  unfold Declared.declareStruct
  rcases rel_cases (h.table.find? spared) with ⟨none, none'⟩ | ⟨previous, previous', found, found', -⟩
  case inr =>
    simp only [found, found']
    exact (agree_violate (R := fun _ _ => False) ..).bind fun _ _ => False.elim
  case inl =>
    simp only [none, none', h.table.size_eq]
    have symbol_eq : topLevelSymbol name .struct (.struct (ins.index declared.table.size)) =
        (topLevelSymbol name .struct (.struct declared.table.size)).renumber ins := by
      simp [topLevelSymbol, Symbol.renumber, Ty.renumber, Ty.struct, Base.renumber]
    rw [symbol_eq]
    apply (h.table.declare name spared).bind
    intro middle middle' widened
    refine (related_foldlM (R := SymbolTable.Widened ins)
      (fun decl among _ _ => decl.agree_declare (spares.of_mem among)
        (.members declared.table.size name.value) h.table.size_le) widened).bind ?_
    intro last last' widened
    apply (agree_refl (requireMark .rightBrace closing)).behind
    intro _
    apply (agree_refl (requireMark .semicolon semicolon)).behind
    intro _
    apply (related_write _ _).behind
    intro _
    exact related_pure ⟨widened, h.functions_le, h.depth⟩

theorem declareFunction (h : declared.Widened ins declared') {result : ResultType} {name : Name}
    {params : List (Slot Param)} (closing : Slot Place) {body : Slot Block}
    (sparesResult : ins.SparesAll result.parts) (spared : ins.Spares name.value)
    (sparesParams : ∀ slot ∈ params, ins.SparesAll (slot.parts Param.parts))
    (sparesBody : ins.SparesAll (body.parts Block.parts)) :
    Agree (Declared.Widened ins) (declared.declareFunction result name params closing body)
      (declared'.declareFunction result name params closing body) := by
  have depth_eq : declared'.depth + 1 = ins.depth (declared.depth + 1) := by
    have behind := h.functions_le
    rw [Insertion.depth, if_neg (by omega), h.depth]
    omega
  have size_eq : ins.index declared.table.size + 1 = ins.index (declared.table.size + 1) := by
    have behind := h.table.size_le
    rw [Insertion.index_of_le behind, Insertion.index_of_le (by omega)]
    omega
  unfold Declared.declareFunction
  apply (result.agree_resolve h.table sparesResult).bind
  rintro ty _ rfl
  rw [h.table.size_eq, depth_eq]
  have symbol_eq : topLevelSymbol name .function (ty.renumber ins) =
      (topLevelSymbol name .function ty).renumber ins := by
    simp [topLevelSymbol, Symbol.renumber]
  rw [symbol_eq]
  apply (h.table.declare name spared).bind
  intro first first' widened
  refine (related_foldlM (R := SymbolTable.Widened ins)
    (fun slot among _ _ => Param.agree_declare h.table.size_le (declared.depth + 1) slot
      (sparesParams slot among)) widened).bind ?_
  intro middle middle' widened
  apply (agree_refl (requireMark .rightParen closing)).behind
  intro _
  cases body with
  | missing instead =>
    exact (agree_unexpected (R := fun _ _ => False) (.mark .leftBrace) instead).bind
      fun _ _ => False.elim
  | found block =>
    simp only [require, pure_bind]
    apply (block.agree_check ⟨name.value, ty, declared.depth + 1⟩ sparesBody widened).bind
    intro last last' widened
    apply (related_write _ _).behind
    intro _
    have truncated := widened.truncate (Nat.le_succ_of_le h.table.size_le)
    rw [← size_eq] at truncated
    exact related_pure ⟨truncated, Nat.le_succ_of_le h.functions_le,
      by rw [← depth_eq, h.depth, Nat.add_right_comm]⟩

end Declared.Widened

theorem Decl.agree_check {declared declared' : Declared} (decl : Decl)
    (spares : ins.SparesAll decl.parts) (h : declared.Widened ins declared') :
    Agree (Declared.Widened ins) (decl.check declared) (decl.check declared') := by
  cases decl with
  | struct word name opening members closing semicolon =>
    simp only [parts, Insertion.sparesAll_append, Insertion.sparesAll_name] at spares
    exact h.declareStruct closing semicolon spares.1.1.1.1.2 spares.1.1.2
  | function result name opening params closing body =>
    simp only [parts, Insertion.sparesAll_append, Insertion.sparesAll_name] at spares
    obtain ⟨⟨⟨⟨⟨sparesResult, spared⟩, -⟩, sparesParams⟩, -⟩, sparesBody⟩ := spares
    apply (agree_refl result.noteStruct).behind
    intro _
    refine h.declareFunction closing sparesResult spared (fun slot among => ?_) sparesBody
    cases params with
    | none => cases among
    | some items => exact Insertion.SparesAll.of_mem_separated sparesParams among
  | vars tried decl =>
    have base : ins.SparesAll decl.base.parts := by
      simp only [parts, VarDecl.parts, Insertion.sparesAll_append] at spares
      exact spares.1.1
    apply (agree_refl decl.base.noteStruct).behind
    intro _
    apply (decl.base.agree_resolve h.table base).bind
    intro _ _ _
    apply (agree_refl (noteFunction tried decl.base.start)).behind
    intro _
    apply (decl.agree_declare spares .topLevel trivial h.table).bind
    intro middle middle' widened
    exact related_pure ⟨widened, h.functions_le, h.depth⟩
  | missing tried instead =>
    apply (agree_refl (noteFunction tried instead.place)).behind
    intro _
    exact agree_unexpected .declaration instead

/-- Declarations that name none of the symbols put in. -/
theorem Decl.agree_foldlM_check {declared declared' : Declared} {decls : List Decl}
    (spares : ins.SparesAll (decls.flatMap Decl.parts)) (h : declared.Widened ins declared') :
    Agree (Declared.Widened ins) (decls.foldlM Decl.check declared)
      (decls.foldlM Decl.check declared') :=
  related_foldlM (fun decl among _ _ => decl.agree_check (spares.of_mem among)) h

end PlainC
