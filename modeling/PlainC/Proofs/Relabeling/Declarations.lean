import PlainC.Proofs.Program.Front
import PlainC.Proofs.Relabeling.Expressions

set_option autoImplicit false

/-!
Relabeled declarations and statements: they make tables that are alike, or have the same fault.
-/

namespace PlainC

open Checked
open SymbolTable (externals)

variable {r : Relabeling} {table table' : SymbolTable}

/-! ### Variables -/

namespace Region

def rename (r : Relabeling) : Region → Region
  | topLevel => topLevel
  | members index struct => members index (r.name struct)
  | body depth => body depth

/-- What is declared does not become a part of an external function. -/
def Own : Region → Prop
  | members index _ => externals.length ≤ index
  | topLevel | body _ => True

theorem alike_variableSymbol (region : Region) (name : Name) (ty : Ty) :
    (region.variableSymbol name ty).PartAlike r
      ((region.rename r).variableSymbol (name.rename r) ty) := by
  have lines := r.lines_place name.place
  cases region <;> exact .intro lines

theorem alike_declare (h : table.Alike r table') {region : Region} (own : region.Own) (name : Name)
    (ty : Ty) : Checked.Alike r (SymbolTable.Alike r) (region.declare table name ty)
      ((region.rename r).declare table' (name.rename r) ty) := by
  have added := alike_variableSymbol (r := r) region name ty
  cases region with
  | topLevel | body => exact h.declare added.alike name
  | members index struct =>
    apply alike_broken fun keeps => congrArg _ (keeps struct)
    rcases rel_cases (Symbol.rel_member? (h.get? index) name.value) with
        ⟨none, none'⟩ | ⟨previous, previous', found, found', same⟩
    · simp only [Name.rename, none, none']
      exact alike_pure (h.addMember own added)
    · simp only [Name.rename, found, found']
      exact alike_redefined name same.line

end Region

namespace Initializer

theorem alike_fit (start : Place) (ty : Ty) (count : Nat) :
    Checked.Alike r Eq (fit start ty count) (fit (r.place start) ty count) := by
  unfold fit
  cases ty.extent with
  | sized size => exact alike_broken (fun _ => rfl) (alike_pure rfl)
  | unsized | scalar => exact alike_pure rfl

section

variable (h : table.Alike r table')

include h

theorem alike_checkElement (element : Ty) (expr : Expr) :
    Checked.Alike r Eq (checkElement table element expr)
      (checkElement table' element (expr.relabel r)) := by
  apply (expr.alike_type h).behind
  intro value
  rw [Expr.start_relabel]
  exact alike_broken (fun keeps => by rw [h.typeName keeps, h.typeName keeps]) (alike_pure rfl)

theorem alike_checkElements (element : Ty) (args : Args) :
    Checked.Alike r Eq (checkElements table element args)
      (checkElements table' element (args.relabel r)) := by
  cases args with
  | last expr => exact alike_checkElement h element expr
  | more expr comma rest =>
    apply (alike_checkElement h element expr).behind
    intro _
    exact alike_checkElements element rest

theorem alike_requireArray (opening : Place) (ty : Ty) :
    Checked.Alike r Eq (requireArray table opening ty)
      (requireArray table' (r.place opening) ty) :=
  alike_kept rfl fun keeps => by rw [h.typeName keeps]

theorem alike_type (ty : Ty) (initializer : Initializer) :
    Checked.Alike r Eq (initializer.type table ty) ((initializer.relabel r).type table' ty) := by
  cases initializer with
  | noElements opening closing =>
    apply (alike_requireArray h opening ty).behind
    intro _
    exact alike_fit opening ty 0
  | elements opening args closing =>
    apply (alike_requireArray h opening ty).behind
    intro _
    apply (alike_checkElements h ty.element args).behind
    intro _
    apply (alike_requireMark .rightBrace closing).behind
    intro _
    rw [Args.length_relabel]
    exact alike_fit opening ty args.length
  | value expr =>
    apply (expr.alike_type h).behind
    intro source
    rw [Expr.start_relabel]
    apply alike_unless fun keeps => by rw [h.typeName keeps, h.typeName keeps]
    cases source.ty.extent with
    | sized count => exact alike_fit expr.start ty count
    | unsized | scalar => exact alike_pure rfl

end

end Initializer

theorem Declarator.alike_type (h : table.Alike r table') (region : Region) (name : Name)
    (base : Base) (declarator : Declarator) :
    Checked.Alike r Eq (declarator.type region table name base)
      ((declarator.relabel r).type (region.rename r) table' (name.rename r) base) := by
  obtain ⟨slot, array, init⟩ := declarator
  apply array.alike_extent.behind
  intro extent
  cases init with
  | none => exact alike_pure rfl
  | some init =>
    obtain ⟨op, initializer⟩ := init
    cases region with
    | topLevel | body => exact initializer.alike_type h _
    | members index struct =>
      exact alike_violate_eq (fun keeps => congrArg _ (keeps name.value)) op

theorem Declarator.alike_declare {region : Region} (own : region.Own) (base : Base)
    (declarator : Declarator) (h : table.Alike r table') :
    Checked.Alike r (SymbolTable.Alike r) (declarator.declare region base table)
      ((declarator.relabel r).declare (region.rename r) base table') := by
  apply (alike_require .variableName declarator.name).bind
  rintro name _ rfl
  apply (declarator.alike_type h region name base).behind
  intro ty
  exact Region.alike_declare h own name ty

theorem VarDecl.alike_declare (decl : VarDecl) (region : Region) (own : region.Own)
    (h : table.Alike r table') :
    Checked.Alike r (SymbolTable.Alike r) (decl.declare region table)
      ((decl.relabel r).declare (region.rename r) table') := by
  apply (decl.base.alike_resolve h).behind
  intro base
  have toList : (decl.relabel r).declarators.toList =
      decl.declarators.toList.map (Declarator.relabel r) :=
    Separated.toList_relabel r _ _
  rw [toList]
  refine (alike_foldlM (R := SymbolTable.Alike r)
    (fun declarator _ _ _ => declarator.alike_declare own base) h).bind ?_
  intro middle middle' alike
  apply (alike_requireMark .semicolon decl.semicolon).behind
  intro _
  exact alike_pure alike

/-! ### Statements -/

def FunctionScope.rename (r : Relabeling) (scope : FunctionScope) : FunctionScope :=
  { scope with name := r.name scope.name }

section

variable (h : table.Alike r table')

include h

theorem Expr.alike_checkTested (expr : Expr) :
    Checked.Alike r Eq (expr.checkTested table) ((expr.relabel r).checkTested table') := by
  apply (expr.alike_type h).behind
  intro value
  rw [Expr.start_relabel]
  apply alike_unless fun _ => rfl
  exact alike_broken (fun _ => rfl) (alike_pure rfl)

theorem Expr.alike_checkUnused (expr : Expr) :
    Checked.Alike r Eq (expr.checkUnused table) ((expr.relabel r).checkUnused table') :=
  (expr.alike_type h).behind fun _ => alike_pure rfl

theorem Condition.alike_check (condition : Condition) :
    Checked.Alike r Eq (condition.check table) ((condition.relabel r).check table') := by
  apply (alike_requireMark .leftParen condition.opening).behind
  intro _
  apply (condition.expr.alike_checkTested h).behind
  intro _
  exact alike_requireMark .rightParen condition.closing

theorem ForHeader.alike_check (header : ForHeader) :
    Checked.Alike r Eq (header.check table) ((header.relabel r).check table') := by
  apply (alike_requireMark .leftParen header.opening).behind
  intro _
  apply (alike_forM (Expr.alike_checkUnused h)).behind
  intro _
  apply (alike_requireMark .semicolon header.firstSemicolon).behind
  intro _
  apply (alike_forM (Expr.alike_checkTested h)).behind
  intro _
  apply (alike_requireMark .semicolon header.secondSemicolon).behind
  intro _
  apply (alike_forM (Expr.alike_checkUnused h)).behind
  intro _
  exact alike_requireMark .rightParen header.closing

theorem FunctionScope.alike_checkReturn (scope : FunctionScope) (word : Place)
    (value : Option Expr) : Checked.Alike r Eq (scope.checkReturn table word value)
      ((scope.rename r).checkReturn table' (r.place word) (value.map (Expr.relabel r))) := by
  cases value with
  | none =>
    refine alike_kept rfl fun keeps => ?_
    rw [FunctionScope.rename, keeps, h.typeName keeps]
  | some expr =>
    apply (expr.alike_type h).behind
    intro value
    apply alike_unless fun keeps => by rw [FunctionScope.rename, keeps]
    refine alike_broken (fun keeps => ?_) (alike_pure rfl)
    rw [FunctionScope.rename, keeps, h.typeName keeps, h.typeName keeps]

end

mutual

theorem Stmt.alike_check (scope : FunctionScope) : ∀ (stmt : Stmt) (loops : Nat)
    {table table' : SymbolTable}, table.Alike r table' →
      Checked.Alike r (SymbolTable.Alike r) (stmt.check scope loops table)
        ((stmt.relabel r).check (scope.rename r) loops table')
  | .block opening items closing, loops, _, _, h => by
    apply (Items.alike_check scope items loops h).bind
    intro middle middle' alike
    apply (alike_requireMark .rightBrace closing).behind
    intro _
    exact alike_pure alike
  | .ifThen word condition body, loops, _, _, h => by
    apply (condition.alike_check h).behind
    intro _
    exact Stmt.alike_check scope body loops h
  | .ifElse word condition body elseWord otherwise, loops, _, _, h => by
    apply (condition.alike_check h).behind
    intro _
    apply (Stmt.alike_check scope body loops h).bind
    intro middle middle' alike
    exact Stmt.alike_check scope otherwise loops alike
  | .whileLoop word condition body, loops, _, _, h => by
    apply (condition.alike_check h).behind
    intro _
    exact Stmt.alike_check scope body (loops + 1) h
  | .forLoop word header body, loops, _, _, h => by
    apply (header.alike_check h).behind
    intro _
    exact Stmt.alike_check scope body (loops + 1) h
  | .breakLoop word semicolon, loops, _, _, h => by
    apply alike_unless fun _ => rfl
    apply (alike_requireMark .semicolon semicolon).behind
    intro _
    exact alike_pure h
  | .returnValue word value semicolon, loops, _, _, h => by
    apply (scope.alike_checkReturn h word value).behind
    intro _
    apply (alike_requireMark .semicolon semicolon).behind
    intro _
    exact alike_pure h
  | .empty semicolon, loops, _, _, h => alike_pure h
  | .expr expr semicolon, loops, _, _, h => by
    apply (expr.alike_checkUnused h).behind
    intro _
    apply (alike_requireMark .semicolon semicolon).behind
    intro _
    exact alike_pure h
  | .missing instead, loops, _, _, h => alike_unexpected .statement instead

theorem Items.alike_check (scope : FunctionScope) : ∀ (items : Items) (loops : Nat)
    {table table' : SymbolTable}, table.Alike r table' →
      Checked.Alike r (SymbolTable.Alike r) (items.check scope loops table)
        ((items.relabel r).check (scope.rename r) loops table')
  | .nil, loops, _, _, h => alike_pure h
  | .decl decl rest, loops, _, _, h => by
    apply (decl.alike_declare (.body scope.depth) trivial h).bind
    intro middle middle' alike
    exact Items.alike_check scope rest loops alike
  | .stmt stmt rest, loops, _, _, h => by
    apply (Stmt.alike_check scope stmt loops h).bind
    intro middle middle' alike
    exact Items.alike_check scope rest loops alike

end

theorem Block.alike_check (scope : FunctionScope) (block : Block) (h : table.Alike r table') :
    Checked.Alike r (SymbolTable.Alike r) (block.check scope table)
      ((block.relabel r).check (scope.rename r) table') := by
  apply (block.items.alike_check scope 0 h).bind
  intro middle middle' alike
  apply (alike_requireMark .rightBrace block.closing).behind
  intro _
  exact alike_pure alike

/-! ### Declarations -/

/-- As many functions, and tables that are alike. -/
structure Declared.Alike (r : Relabeling) (declared declared' : Declared) : Prop where
  table : declared.table.Alike r declared'.table
  depth : declared'.depth = declared.depth

@[simp] theorem BaseName.start_relabel (base : BaseName) :
    (base.relabel r).start = r.place base.start := by
  cases base <;> rfl

theorem BaseName.alike_noteStruct (base : BaseName) :
    Checked.Alike r Eq base.noteStruct (base.relabel r).noteStruct := by
  cases base with
  | int | double | char => exact alike_pure rfl
  | struct word slot =>
    cases slot with
    | found name => exact alike_write _ _
    | missing instead => exact alike_pure rfl

theorem ResultType.alike_noteStruct (result : ResultType) :
    Checked.Alike r Eq result.noteStruct (result.relabel r).noteStruct := by
  cases result with
  | void => exact alike_pure rfl
  | value base | array base => exact base.alike_noteStruct

theorem alike_noteFunction (tried : Nat) (start : Place) :
    Checked.Alike r Eq (noteFunction tried start) (noteFunction tried (r.place start)) :=
  alike_ite (fun _ => alike_pure rfl) fun _ => alike_write _ _

theorem ResultType.alike_resolve (h : table.Alike r table') (result : ResultType) :
    Checked.Alike r Eq (result.resolve table) ((result.relabel r).resolve table') := by
  cases result with
  | void => exact alike_pure rfl
  | value base | array base => exact (base.alike_resolve h).behind fun _ => alike_pure rfl

theorem alike_topLevelSymbol (name : Name) (cls : SymbolClass) (ty : Ty) :
    (topLevelSymbol name cls ty).Alike r (topLevelSymbol (name.rename r) cls ty) :=
  .intro (r.lines_place name.place) .nil .nil

theorem Param.alike_declare {index : Nat} (own : externals.length ≤ index) (depth : Nat)
    (slot : Slot Param) (h : table.Alike r table') :
    Checked.Alike r (SymbolTable.Alike r) (Param.declare index depth table slot)
      (Param.declare index depth table' (slot.relabel r (Param.relabel r))) := by
  apply (alike_require .parameterType slot).bind
  rintro param _ rfl
  apply (param.base.alike_resolve h).behind
  intro base
  apply (alike_require .parameterName param.name).bind
  rintro name _ rfl
  apply param.array.alike_extent.behind
  intro extent
  have added : (Param.symbol depth name base extent).PartAlike r
      (Param.symbol depth (name.rename r) base extent) :=
    .intro (r.lines_place name.place)
  apply (h.declare added.alike name).bind
  intro middle middle' alike
  exact alike_pure (alike.addArg own added)

theorem Declared.Alike.declareStruct {declared declared' : Declared}
    (h : declared.Alike r declared') (name : Name) (members : List VarDecl)
    (closing semicolon : Slot Place) :
    Checked.Alike r (Declared.Alike r) (declared.declareStruct name members closing semicolon)
      (declared'.declareStruct (name.rename r) (members.map (VarDecl.relabel r))
        (closing.relabel r r.place) (semicolon.relabel r r.place)) := by
  unfold Declared.declareStruct
  rcases rel_cases (h.table.find? name.value) with
      ⟨none, none'⟩ | ⟨previous, previous', found, found', same⟩
  · simp only [Name.rename, none, none', h.table.size_eq]
    apply (h.table.declare (alike_topLevelSymbol name _ _) name).bind
    intro middle middle' alike
    refine (alike_foldlM (R := SymbolTable.Alike r)
      (fun decl _ _ _ => decl.alike_declare (.members _ name.value) h.table.externals_le)
      alike).bind ?_
    intro last last' alike
    apply (alike_requireMark .rightBrace closing).behind
    intro _
    apply (alike_requireMark .semicolon semicolon).behind
    intro _
    apply (alike_write _ _).behind
    intro _
    exact alike_pure ⟨alike, h.depth⟩
  · simp only [Name.rename, found, found']
    exact (alike_redefined (R := fun _ _ => False) name same.line).bind fun _ _ => False.elim

theorem Declared.Alike.declareFunction {declared declared' : Declared}
    (h : declared.Alike r declared') (result : ResultType) (name : Name)
    (params : List (Slot Param)) (closing : Slot Place) (body : Slot Block) :
    Checked.Alike r (Declared.Alike r) (declared.declareFunction result name params closing body)
      (declared'.declareFunction (result.relabel r) (name.rename r)
        (params.map (Slot.relabel r (Param.relabel r))) (closing.relabel r r.place)
        (body.relabel r (Block.relabel r))) := by
  have behind : externals.length ≤ declared.table.size + 1 :=
    Nat.le_succ_of_le h.table.externals_le
  unfold Declared.declareFunction
  apply (result.alike_resolve h.table).behind
  intro ty
  rw [h.table.size_eq, h.depth]
  apply (h.table.declare (alike_topLevelSymbol name _ ty) name).bind
  intro first first' alike
  refine (alike_foldlM (R := SymbolTable.Alike r)
    (fun slot _ _ _ => Param.alike_declare h.table.externals_le (declared.depth + 1) slot)
    alike).bind ?_
  intro middle middle' alike
  apply (alike_requireMark .rightParen closing).behind
  intro _
  apply (alike_require (.mark .leftBrace) body).bind
  rintro block _ rfl
  apply (block.alike_check ⟨name.value, ty, declared.depth + 1⟩ alike).bind
  intro last last' alike
  apply (alike_write _ _).behind
  intro _
  exact alike_pure ⟨alike.truncate behind, rfl⟩

theorem Decl.alike_check {declared declared' : Declared} (decl : Decl)
    (h : declared.Alike r declared') :
    Checked.Alike r (Declared.Alike r) (decl.check declared)
      ((decl.relabel r).check declared') := by
  cases decl with
  | struct word name opening members closing semicolon =>
    exact h.declareStruct name members closing semicolon
  | function result name opening params closing body =>
    apply result.alike_noteStruct.behind
    intro _
    have toList : ((params.map (Separated.relabel r (Slot.relabel r (Param.relabel r)))).map
        Separated.toList).getD [] =
          ((params.map Separated.toList).getD []).map (Slot.relabel r (Param.relabel r)) := by
      cases params with
      | none => rfl
      | some items => exact Separated.toList_relabel r _ items
    rw [toList]
    exact h.declareFunction result name _ closing body
  | vars tried decl =>
    apply decl.base.alike_noteStruct.behind
    intro _
    apply (decl.base.alike_resolve h.table).behind
    intro _
    have start : (decl.relabel r).base.start = r.place decl.base.start := decl.base.start_relabel
    rw [start]
    apply (alike_noteFunction tried decl.base.start).behind
    intro _
    apply (decl.alike_declare .topLevel trivial h.table).bind
    intro middle middle' alike
    exact alike_pure ⟨alike, h.depth⟩
  | missing tried instead =>
    apply (alike_noteFunction tried instead.place).behind
    intro _
    exact alike_unexpected .declaration instead

/-! ### Programs -/

/-- Relabeled declarations are those that the relabeled lexemes are written from. -/
theorem Program.written_relabel {tokens : List Token} {decls : List Decl} (r : Relabeling)
    (formed : ∀ decl ∈ decls, decl.Formed) (gapless : Gapless (decls.flatMap Decl.parts))
    (lexemes : (lexemesOf (decls.flatMap Decl.parts)).map (Lexeme.relabel r) = front tokens) :
    Written tokens (decls.map (Decl.relabel r)) := by
  have parts : (decls.map (Decl.relabel r)).flatMap Decl.parts =
      relabelParts r (decls.flatMap Decl.parts) :=
    parts_relabel_flatMap r fun decl _ => decl.parts_relabel r
  constructor
  · intro decl among
    obtain ⟨original, mem, rfl⟩ := List.mem_map.mp among
    exact Decl.formed_relabel r (formed original mem)
  · rwa [parts, gapless_relabelParts]
  · rwa [parts, lexemesOf_relabelParts]

/-- Relabeled declarations are checked with the same success. -/
theorem Program.alike_tableOfDecls (decls : List Decl) :
    Checked.Alike r (SymbolTable.Alike r) (tableOfDecls decls)
      (tableOfDecls (decls.map (Decl.relabel r))) := by
  have start : Declared.Alike r ⟨.initial, 0⟩ ⟨.initial, 0⟩ := ⟨SymbolTable.alike_initial r, rfl⟩
  refine (alike_foldlM (fun decl _ _ _ => decl.alike_check) start).bind ?_
  intro declared declared' alike
  exact alike_pure alike.table

end PlainC
