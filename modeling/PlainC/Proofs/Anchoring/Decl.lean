import PlainC.Program
import PlainC.Proofs.Anchoring.Expr

set_option autoImplicit false

/-!
Where the faults of declarations and statements are: about what these were read from.
-/

namespace PlainC

open Checked

/-! ### Declarations of variables -/

theorem refuses_declare {ps : Parts} (table : SymbolTable) {name : Name} (symbol : Symbol)
    (mem : name.place ∈ places ps) : Refuses (Fault.IsIn ps) (table.declare name symbol) := by
  unfold SymbolTable.declare redefined
  split
  · exact refuses_pure _
  · exact refuses_violation mem

theorem Region.refuses_declare {ps : Parts} (region : Region) (table : SymbolTable) {name : Name}
    (ty : Ty) (mem : name.place ∈ places ps) :
    Refuses (Fault.IsIn ps) (region.declare table name ty) := by
  cases region with
  | topLevel | body => exact PlainC.refuses_declare _ _ mem
  | members index struct =>
    simp only [Region.declare, redefined]
    repeat' split
    all_goals first | exact refuses_violation mem | exact refuses_pure _

namespace Initializer

theorem refuses_fit {ps : Parts} {start : Place} (ty : Ty) (count : Nat)
    (mem : start ∈ places ps) : Refuses (Fault.IsIn ps) (fit start ty count) := by
  unfold fit
  repeat' split
  all_goals first | exact refuses_violation mem | exact refuses_pure _

theorem refuses_checkElement {ps : Parts} (table : SymbolTable) (element : Ty) (expr : Expr)
    (sub : expr.parts ⊆ ps) : Refuses (Fault.IsIn ps) (checkElement table element expr) := by
  refine (expr.refuses_type table sub).bind fun value _ => ?_
  split
  · exact refuses_violation (places_mono sub expr.start_mem)
  · exact refuses_pure _

theorem refuses_checkElements {ps : Parts} (table : SymbolTable) (element : Ty) :
    ∀ args : Args, args.parts ⊆ ps → Refuses (Fault.IsIn ps) (checkElements table element args)
  | .last expr, sub => refuses_checkElement table element expr sub
  | .more expr comma rest, sub => by
    simp only [Args.parts, List.append_subset] at sub
    obtain ⟨⟨expr_sub, -⟩, rest_sub⟩ := sub
    exact (refuses_checkElement table element expr expr_sub).bind fun _ _ =>
      refuses_checkElements table element rest rest_sub

theorem refuses_requireArray {ps : Parts} {opening : Place} (table : SymbolTable) (ty : Ty)
    (mem : opening ∈ places ps) : Refuses (Fault.IsIn ps) (requireArray table opening ty) := by
  unfold requireArray
  split
  · exact refuses_pure _
  · exact refuses_violation mem

theorem refuses_type {ps : Parts} (table : SymbolTable) (ty : Ty) (init : Initializer)
    (sub : init.parts ⊆ ps) : Refuses (Fault.IsIn ps) (init.type table ty) := by
  cases init with
  | value expr =>
    have start := places_mono sub expr.start_mem
    refine (expr.refuses_type table sub).bind fun source _ => ?_
    refine refuses_unless (fun _ => ?_) fun _ => ?_
    · exact Fault.isIn_violation start
    · split
      · exact refuses_fit _ _ start
      · exact refuses_pure _
  | elements opening args closing =>
    simp only [parts, List.append_subset] at sub
    obtain ⟨⟨opening_sub, args_sub⟩, closing_sub⟩ := sub
    have start := mem_places_of_found (opening_sub List.mem_cons_self)
    refine (refuses_requireArray table ty start).bind fun _ _ => ?_
    refine (refuses_checkElements table ty.element args args_sub).bind fun _ _ => ?_
    exact (refuses_mark closing_sub).bind fun _ _ => refuses_fit _ _ start
  | noElements opening closing =>
    have start := mem_places_of_found (sub List.mem_cons_self)
    exact (refuses_requireArray table ty start).bind fun _ _ => refuses_fit _ _ start

end Initializer

theorem Declarator.refuses_declare {ps : Parts} (region : Region) (base : Base)
    (table : SymbolTable) (declarator : Declarator) (sub : declarator.parts ⊆ ps) :
    Refuses (Fault.IsIn ps) (declarator.declare region base table) := by
  simp only [parts, List.append_subset] at sub
  obtain ⟨⟨name_sub, array_sub⟩, init_sub⟩ := sub
  refine (refuses_slot name_sub).bind fun name given => ?_
  rw [gives_require.mp given] at name_sub
  have named := mem_places_of_found (name_sub List.mem_cons_self)
  refine Refuses.bind ?_ fun ty _ => region.refuses_declare table ty named
  refine (declarator.array.refuses_extent array_sub).bind fun extent _ => ?_
  split
  · exact refuses_pure _
  · rename_i op init same
    simp only [same, optionalParts, Option.map_some, Option.getD_some, List.append_subset]
      at init_sub
    split
    · exact refuses_violation (mem_places_of_found (init_sub.1 List.mem_cons_self))
    · exact init.refuses_type table _ init_sub.2

theorem Separated.parts_subset {α : Type} {view : α → Parts} {items : Separated α} {a : α}
    (among : a ∈ items.toList) : view a ⊆ items.parts view := by
  obtain ⟨first, rest⟩ := items
  rcases List.mem_cons.mp among with rfl | among
  · exact List.subset_append_left _ _
  · refine List.Subset.trans ?_ (List.subset_append_right _ _)
    induction rest with
    | nil => cases among
    | cons item rest ih =>
      rcases List.mem_cons.mp among with rfl | among
      · simp [restParts]
      · exact List.Subset.trans (ih (List.mem_cons_of_mem _ among) among) (by simp [restParts])

theorem VarDecl.refuses_declare {ps : Parts} (region : Region) (table : SymbolTable)
    (decl : VarDecl) (sub : decl.parts ⊆ ps) :
    Refuses (Fault.IsIn ps) (decl.declare region table) := by
  simp only [parts, List.append_subset] at sub
  obtain ⟨⟨base_sub, declarators_sub⟩, semicolon_sub⟩ := sub
  refine (decl.base.refuses_resolve table base_sub).bind fun base _ => ?_
  refine Refuses.bind (refuses_foldlM (fun table declarator among => ?_) table) fun table _ => ?_
  · exact declarator.refuses_declare region base table
      (List.Subset.trans (Separated.parts_subset among) declarators_sub)
  · exact (refuses_mark semicolon_sub).bind fun _ _ => refuses_pure table

/-! ### Statements -/

theorem Expr.refuses_checkTested {ps : Parts} (table : SymbolTable) (expr : Expr)
    (sub : expr.parts ⊆ ps) : Refuses (Fault.IsIn ps) (expr.checkTested table) := by
  have start {violation : Violation} : Fault.IsIn ps ⟨.violation violation, expr.start⟩ :=
    Fault.isIn_violation (places_mono sub expr.start_mem)
  refine (expr.refuses_type table sub).bind fun value _ => ?_
  refine refuses_unless (fun _ => start) fun _ => ?_
  split
  · exact refuses_violate.mpr start
  · exact refuses_pure _

theorem Expr.refuses_checkUnused {ps : Parts} (table : SymbolTable) (expr : Expr)
    (sub : expr.parts ⊆ ps) : Refuses (Fault.IsIn ps) (expr.checkUnused table) :=
  (expr.refuses_type table sub).bind fun _ _ => refuses_pure ()

theorem refuses_optional {ps : Parts} {check : Expr → Checked Unit}
    (refuses : ∀ expr : Expr, expr.parts ⊆ ps → Refuses (Fault.IsIn ps) (check expr))
    {value : Option Expr} (sub : optionalParts Expr.parts value ⊆ ps) :
    Refuses (Fault.IsIn ps) (value.forM check) := by
  cases value with
  | none => exact refuses_pure ()
  | some expr => exact refuses expr sub

theorem Condition.refuses_check {ps : Parts} (table : SymbolTable) (condition : Condition)
    (sub : condition.parts ⊆ ps) : Refuses (Fault.IsIn ps) (condition.check table) := by
  simp only [parts, List.append_subset] at sub
  obtain ⟨⟨opening_sub, expr_sub⟩, closing_sub⟩ := sub
  refine (refuses_mark opening_sub).bind fun _ _ => ?_
  exact (condition.expr.refuses_checkTested table expr_sub).bind fun _ _ =>
    refuses_mark closing_sub

theorem ForHeader.refuses_check {ps : Parts} (table : SymbolTable) (header : ForHeader)
    (sub : header.parts ⊆ ps) : Refuses (Fault.IsIn ps) (header.check table) := by
  simp only [parts, List.append_subset] at sub
  obtain ⟨⟨⟨⟨⟨⟨opening, first⟩, firstSemicolon⟩, condition⟩, secondSemicolon⟩, step⟩, closing⟩ :=
    sub
  refine (refuses_mark opening).bind fun _ _ => ?_
  refine (refuses_optional (Expr.refuses_checkUnused table) first).bind fun _ _ => ?_
  refine (refuses_mark firstSemicolon).bind fun _ _ => ?_
  refine (refuses_optional (Expr.refuses_checkTested table) condition).bind fun _ _ => ?_
  refine (refuses_mark secondSemicolon).bind fun _ _ => ?_
  refine (refuses_optional (Expr.refuses_checkUnused table) step).bind fun _ _ => ?_
  exact refuses_mark closing

theorem FunctionScope.refuses_checkReturn {ps : Parts} (scope : FunctionScope)
    (table : SymbolTable) {word : Place} {value : Option Expr}
    (sub : optionalParts Expr.parts value ⊆ ps) (mem : word ∈ places ps) :
    Refuses (Fault.IsIn ps) (scope.checkReturn table word value) := by
  cases value with
  | none =>
    simp only [checkReturn]
    split
    · exact refuses_pure ()
    · exact refuses_violation mem
  | some expr =>
    refine (expr.refuses_type table sub).bind fun value _ => ?_
    refine refuses_unless (fun _ => Fault.isIn_violation mem)
      fun _ => ?_
    split
    · exact refuses_violation mem
    · exact refuses_pure ()

mutual

theorem Stmt.refuses_check {ps : Parts} (scope : FunctionScope) :
    ∀ (loops : Nat) (table : SymbolTable) (stmt : Stmt), stmt.parts ⊆ ps →
      Refuses (Fault.IsIn ps) (stmt.check scope loops table)
  | loops, table, .block opening items closing, sub => by
    simp only [Stmt.parts, List.append_subset] at sub
    obtain ⟨⟨-, items_sub⟩, closing_sub⟩ := sub
    simp only [Stmt.check]
    refine (Items.refuses_check scope loops table items items_sub).bind fun table _ => ?_
    exact (refuses_mark closing_sub).bind fun _ _ => refuses_pure table
  | loops, table, .ifThen word condition body, sub => by
    simp only [Stmt.parts, List.append_subset] at sub
    obtain ⟨⟨-, condition_sub⟩, body_sub⟩ := sub
    simp only [Stmt.check]
    exact (condition.refuses_check table condition_sub).bind fun _ _ =>
      Stmt.refuses_check scope loops table body body_sub
  | loops, table, .ifElse word condition body elseWord otherwise, sub => by
    simp only [Stmt.parts, List.append_subset] at sub
    obtain ⟨⟨⟨⟨-, condition_sub⟩, body_sub⟩, -⟩, otherwise_sub⟩ := sub
    simp only [Stmt.check]
    refine (condition.refuses_check table condition_sub).bind fun _ _ => ?_
    refine (Stmt.refuses_check scope loops table body body_sub).bind fun table _ => ?_
    exact Stmt.refuses_check scope loops table otherwise otherwise_sub
  | loops, table, .whileLoop word condition body, sub => by
    simp only [Stmt.parts, List.append_subset] at sub
    obtain ⟨⟨-, condition_sub⟩, body_sub⟩ := sub
    simp only [Stmt.check]
    exact (condition.refuses_check table condition_sub).bind fun _ _ =>
      Stmt.refuses_check scope (loops + 1) table body body_sub
  | loops, table, .forLoop word header body, sub => by
    simp only [Stmt.parts, List.append_subset] at sub
    obtain ⟨⟨-, header_sub⟩, body_sub⟩ := sub
    simp only [Stmt.check]
    exact (header.refuses_check table header_sub).bind fun _ _ =>
      Stmt.refuses_check scope (loops + 1) table body body_sub
  | loops, table, .breakLoop word semicolon, sub => by
    obtain ⟨word_sub, semicolon_sub⟩ := List.append_subset.mp sub
    have mem := mem_places_of_found (word_sub List.mem_cons_self)
    simp only [Stmt.check]
    refine refuses_unless (fun _ => Fault.isIn_violation mem)
      fun _ => ?_
    exact (refuses_mark semicolon_sub).bind fun _ _ => refuses_pure table
  | loops, table, .returnValue word value semicolon, sub => by
    simp only [Stmt.parts, List.append_subset] at sub
    obtain ⟨⟨word_sub, value_sub⟩, semicolon_sub⟩ := sub
    have mem := mem_places_of_found (word_sub List.mem_cons_self)
    simp only [Stmt.check]
    refine (scope.refuses_checkReturn table value_sub mem).bind fun _ _ => ?_
    exact (refuses_mark semicolon_sub).bind fun _ _ => refuses_pure table
  | loops, table, .empty semicolon, sub => by
    simp only [Stmt.check]
    exact refuses_pure table
  | loops, table, .expr expr semicolon, sub => by
    obtain ⟨expr_sub, semicolon_sub⟩ := List.append_subset.mp sub
    simp only [Stmt.check]
    refine (expr.refuses_checkUnused table expr_sub).bind fun _ _ => ?_
    exact (refuses_mark semicolon_sub).bind fun _ _ => refuses_pure table
  | loops, table, .missing instead, sub => by
    simp only [Stmt.check]
    exact refuses_unexpected.mpr (Fault.isIn_unexpected (sub List.mem_cons_self))

theorem Items.refuses_check {ps : Parts} (scope : FunctionScope) (loops : Nat) :
    ∀ (table : SymbolTable) (items : Items), items.parts ⊆ ps →
      Refuses (Fault.IsIn ps) (items.check scope loops table)
  | table, .nil, _ => by
    simp only [Items.check]
    exact refuses_pure table
  | table, .decl decl rest, sub => by
    obtain ⟨decl_sub, rest_sub⟩ := List.append_subset.mp sub
    simp only [Items.check]
    exact (decl.refuses_declare (.body scope.depth) table decl_sub).bind fun table _ =>
      Items.refuses_check scope loops table rest rest_sub
  | table, .stmt stmt rest, sub => by
    obtain ⟨stmt_sub, rest_sub⟩ := List.append_subset.mp sub
    simp only [Items.check]
    exact (Stmt.refuses_check scope loops table stmt stmt_sub).bind fun table _ =>
      Items.refuses_check scope loops table rest rest_sub

end

theorem Block.refuses_check {ps : Parts} (scope : FunctionScope) (table : SymbolTable)
    (block : Block) (sub : block.parts ⊆ ps) :
    Refuses (Fault.IsIn ps) (block.check scope table) := by
  simp only [parts, List.append_subset] at sub
  obtain ⟨⟨-, items_sub⟩, closing_sub⟩ := sub
  refine (block.items.refuses_check scope 0 table items_sub).bind fun table _ => ?_
  exact (refuses_mark closing_sub).bind fun _ _ => refuses_pure table

/-! ### Top-level declarations -/

section

variable {P : Fault → Prop}

theorem BaseName.refuses_noteStruct (base : BaseName) : Refuses P base.noteStruct := by
  unfold noteStruct backtracked
  split
  · exact refuses_write _
  · exact refuses_pure ()

theorem ResultType.refuses_noteStruct (result : ResultType) : Refuses P result.noteStruct := by
  cases result with
  | void => exact refuses_pure ()
  | value base | array base => exact base.refuses_noteStruct

theorem refuses_noteFunction (tried : Nat) (start : Place) :
    Refuses P (noteFunction tried start) := by
  unfold noteFunction backtracked
  split
  · exact refuses_pure ()
  · exact refuses_write _

end

theorem ResultType.refuses_resolve {ps : Parts} (table : SymbolTable) (result : ResultType)
    (sub : result.parts ⊆ ps) : Refuses (Fault.IsIn ps) (result.resolve table) := by
  cases result with
  | void word => exact refuses_pure _
  | value base => exact (base.refuses_resolve table sub).bind fun _ _ => refuses_pure _
  | array base star =>
    have base_sub := (List.append_subset.mp sub).1
    exact (base.refuses_resolve table base_sub).bind fun _ _ => refuses_pure _

theorem Param.refuses_declare {ps : Parts} (index depth : Nat) (table : SymbolTable)
    (slot : Slot Param) (sub : slot.parts Param.parts ⊆ ps) :
    Refuses (Fault.IsIn ps) (Param.declare index depth table slot) := by
  refine (refuses_slot sub).bind fun param given => ?_
  obtain rfl := gives_require.mp given
  simp only [Slot.parts, Param.parts, List.append_subset] at sub
  obtain ⟨⟨base_sub, name_sub⟩, array_sub⟩ := sub
  refine (param.base.refuses_resolve table base_sub).bind fun base _ => ?_
  refine (refuses_slot name_sub).bind fun name given => ?_
  rw [gives_require.mp given] at name_sub
  have named := mem_places_of_found (name_sub List.mem_cons_self)
  refine (param.array.refuses_extent array_sub).bind fun extent _ => ?_
  exact (PlainC.refuses_declare table _ named).bind fun _ _ => refuses_pure _

namespace Declared

theorem refuses_declareStruct {ps : Parts} (declared : Declared) {name : Name}
    {members : List VarDecl} {closing semicolon : Slot Place}
    (mem : name.place ∈ places ps) (members_sub : members.flatMap VarDecl.parts ⊆ ps)
    (closing_sub : closing.parts Delimiter.rightBrace.part ⊆ ps)
    (semicolon_sub : semicolon.parts Delimiter.semicolon.part ⊆ ps) :
    Refuses (Fault.IsIn ps) (declared.declareStruct name members closing semicolon) := by
  unfold declareStruct
  split
  · exact (refuses_violation (α := Unit) mem).bind nofun
  refine (PlainC.refuses_declare _ _ mem).bind fun table _ => ?_
  refine Refuses.bind (refuses_foldlM (fun table decl among => ?_) table) fun table _ => ?_
  · exact decl.refuses_declare _ table
      (fun part inside => members_sub (List.mem_flatMap_of_mem among inside))
  refine (refuses_mark closing_sub).bind fun _ _ => (refuses_mark semicolon_sub).bind fun _ _ => ?_
  exact (refuses_write _).bind fun _ _ => refuses_pure _

theorem refuses_declareFunction {ps : Parts} (declared : Declared) {result : ResultType}
    {name : Name} {params : Option (Separated (Slot Param))} {closing : Slot Place}
    {body : Slot Block} (mem : name.place ∈ places ps) (result_sub : result.parts ⊆ ps)
    (params_sub : optionalParts (Separated.parts (Slot.parts Param.parts)) params ⊆ ps)
    (closing_sub : closing.parts Delimiter.rightParen.part ⊆ ps)
    (body_sub : body.parts Block.parts ⊆ ps) :
    Refuses (Fault.IsIn ps) (declared.declareFunction result name
      ((params.map Separated.toList).getD []) closing body) := by
  refine (result.refuses_resolve declared.table result_sub).bind fun ty _ => ?_
  refine (PlainC.refuses_declare _ _ mem).bind fun table _ => ?_
  refine Refuses.bind (refuses_foldlM (fun table slot among => ?_) table) fun table _ => ?_
  · cases params with
    | none => cases among
    | some items =>
      exact Param.refuses_declare _ _ table slot
        (List.Subset.trans (Separated.parts_subset among) params_sub)
  refine (refuses_mark closing_sub).bind fun _ _ => ?_
  refine (refuses_slot body_sub).bind fun block given => ?_
  obtain rfl := gives_require.mp given
  refine (block.refuses_check _ table body_sub).bind fun table _ => ?_
  exact (refuses_write _).bind fun _ _ => refuses_pure _

end Declared

theorem Decl.refuses_check {ps : Parts} (declared : Declared) (decl : Decl)
    (sub : decl.parts ⊆ ps) : Refuses (Fault.IsIn ps) (decl.check declared) := by
  cases decl with
  | struct word name opening members closing semicolon =>
    simp only [parts, List.append_subset] at sub
    obtain ⟨⟨⟨⟨⟨-, name_sub⟩, -⟩, members_sub⟩, closing_sub⟩, semicolon_sub⟩ := sub
    exact declared.refuses_declareStruct (mem_places_of_found (name_sub List.mem_cons_self))
      members_sub closing_sub semicolon_sub
  | function result name opening params closing body =>
    simp only [parts, List.append_subset] at sub
    obtain ⟨⟨⟨⟨⟨result_sub, name_sub⟩, -⟩, params_sub⟩, closing_sub⟩, body_sub⟩ := sub
    refine result.refuses_noteStruct.bind fun _ _ => ?_
    exact declared.refuses_declareFunction (mem_places_of_found (name_sub List.mem_cons_self))
      result_sub params_sub closing_sub body_sub
  | vars tried decl =>
    have base_sub : decl.base.parts ⊆ ps := by
      simp only [parts, VarDecl.parts, List.append_subset] at sub
      exact sub.1.1
    refine decl.base.refuses_noteStruct.bind fun _ _ => ?_
    refine (decl.base.refuses_resolve declared.table base_sub).bind fun _ _ => ?_
    refine (refuses_noteFunction tried decl.base.start).bind fun _ _ => ?_
    exact (decl.refuses_declare .topLevel declared.table sub).bind fun _ _ => refuses_pure _
  | missing tried instead =>
    refine (refuses_noteFunction tried instead.place).bind fun _ _ => ?_
    exact refuses_unexpected.mpr (Fault.isIn_unexpected (sub List.mem_cons_self))

/-- Each fault of a program is about one of its lexemes, or about one that was met at a gap. -/
theorem Decl.refuses_foldlM_check (decls : List Decl) (declared : Declared) :
    Refuses (Fault.IsIn (decls.flatMap Decl.parts)) (decls.foldlM Decl.check declared) :=
  refuses_foldlM (fun declared decl among =>
    decl.refuses_check declared fun _ inside => List.mem_flatMap_of_mem among inside) declared

end PlainC
