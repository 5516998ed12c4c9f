import PlainC.Proofs.Checking.Gives
import PlainC.Proofs.Visits.Basic

set_option autoImplicit false

/-!
What is known of the statements of an accepted program: the check comes to all statements of all
functions, and what is tested or given back there is of a type that allows it.
-/

namespace PlainC

open Checked

variable {table : SymbolTable}

theorem Ty.isStruct_eq_false {ty : Ty} : ty.isStruct = false ↔ ∀ index, ty.base ≠ .struct index := by
  unfold isStruct
  cases ty.base <;> simp

theorem Ty.isVoid_eq_true {ty : Ty} : ty.isVoid = true ↔ ty.base = .void := by simp [isVoid]

theorem Ty.isVoid_eq_false {ty : Ty} : ty.isVoid = false ↔ ty.base ≠ .void := by simp [isVoid]

/-- The value of the expression can be tested: its base type is neither a struct nor void. -/
def Expr.IsTested (table : SymbolTable) (expr : Expr) : Prop :=
  ∃ operand, (expr.type table).Gives operand ∧
    (∀ index, operand.ty.base ≠ .struct index) ∧ operand.ty.base ≠ .void

/-- A function that gives nothing gives no value back, and any other one a value that converts to
what it gives. -/
def FunctionScope.Returns (scope : FunctionScope) (table : SymbolTable) : Option Expr → Prop
  | none => scope.result.base = .void
  | some expr => scope.result.base ≠ .void ∧
      ∃ operand, (expr.type table).Gives operand ∧ scope.result.accepts operand.ty = true

/-- What the statement tests or gives back itself, not in the statements that are part of it, is
sound. -/
def Stmt.HeadIsSound (scope : FunctionScope) (table : SymbolTable) : Stmt → Prop
  | .ifThen _ condition _ | .ifElse _ condition _ _ _ | .whileLoop _ condition _ =>
    condition.expr.IsTested table
  | .forLoop _ header _ => ∀ expr ∈ header.condition, expr.IsTested table
  | .returnValue _ value _ => scope.Returns table value
  | .block _ _ _ | .breakLoop _ _ | .empty _ | .expr _ _ | .missing _ => True

theorem Expr.isTested_iff {expr : Expr} :
    expr.IsTested table ↔ (expr.checkTested table).Gives () := by
  rw [gives_checkTested]
  refine exists_congr fun operand => and_congr_right fun _ => ?_
  rw [Ty.isStruct_eq_false, Ty.isVoid_eq_false]

theorem FunctionScope.returns_iff {scope : FunctionScope} {word : Place} {value : Option Expr} :
    scope.Returns table value ↔ (scope.checkReturn table word value).Gives () := by
  cases value with
  | none => rw [gives_checkReturn_none, Ty.isVoid_eq_true, Returns]
  | some expr => rw [gives_checkReturn_some, Ty.isVoid_eq_false, Returns]

/-- The head of a statement is checked with the statement. -/
theorem Stmt.headIsSound_of_check {scope : FunctionScope} {loops : Nat} {stmt : Stmt}
    {table' : SymbolTable} (given : (stmt.check scope loops table).Gives table') :
    stmt.HeadIsSound scope table := by
  cases stmt with
  | ifThen | ifElse | whileLoop =>
    simp only [check, gives_bind] at given
    obtain ⟨_, passes, -⟩ := given
    exact Expr.isTested_iff.mpr (Condition.tested_of_check passes)
  | forLoop =>
    simp only [check, gives_bind] at given
    obtain ⟨_, passes, -⟩ := given
    exact fun expr among => Expr.isTested_iff.mpr ((ForHeader.passes_of_check passes).2.1 expr among)
  | returnValue =>
    simp only [check, gives_bind] at given
    obtain ⟨_, passes, -⟩ := given
    exact FunctionScope.returns_iff.mpr passes
  | block | breakLoop | empty | expr | missing => trivial

/-! ### The statements of a function -/

/-- The visit is to something in the function. -/
def Visit.IsIn (scope : FunctionScope) : Visit → Prop
  | .decl region _ _ _ => region = .body scope.depth
  | .stmt scope' _ _ _ => scope' = scope

section

variable (scope : FunctionScope)

theorem forall_mem_behind {α : Type} {x : Checked α} {next : α → List Visit} {P : Visit → Prop}
    (holds : ∀ a, ∀ visit ∈ next a, P visit) : ∀ visit ∈ x.behind next, P visit := by
  intro visit among
  obtain ⟨a, -, among⟩ := mem_behind.mp among
  exact holds a visit among

mutual

theorem Stmt.isIn_visits : ∀ (stmt : Stmt) (loops : Nat) (table : SymbolTable),
    ∀ visit ∈ stmt.visits scope loops table, visit.IsIn scope
  | .block _ inner _, loops, table =>
    List.forall_mem_cons.mpr ⟨rfl, Items.isIn_visits inner loops table⟩
  | .ifThen _ _ body, loops, table =>
    List.forall_mem_cons.mpr ⟨rfl, forall_mem_behind fun _ => Stmt.isIn_visits body loops table⟩
  | .ifElse _ _ body _ otherwise, loops, table => by
    refine List.forall_mem_cons.mpr ⟨rfl, forall_mem_behind fun _ => ?_⟩
    exact List.forall_mem_append.mpr ⟨Stmt.isIn_visits body loops table,
      forall_mem_behind fun _ => Stmt.isIn_visits otherwise loops _⟩
  | .whileLoop _ _ body, loops, table | .forLoop _ _ body, loops, table =>
    List.forall_mem_cons.mpr ⟨rfl,
      forall_mem_behind fun _ => Stmt.isIn_visits body (loops + 1) table⟩
  | .breakLoop _ _, _, _ | .returnValue _ _ _, _, _ | .empty _, _, _ | .expr _ _, _, _
  | .missing _, _, _ => List.forall_mem_singleton.mpr rfl

theorem Items.isIn_visits : ∀ (inner : Items) (loops : Nat) (table : SymbolTable),
    ∀ visit ∈ inner.visits scope loops table, visit.IsIn scope
  | .nil, _, _ => List.forall_mem_nil _
  | .decl _ rest, loops, _ =>
    List.forall_mem_cons.mpr ⟨rfl, forall_mem_behind fun _ => Items.isIn_visits rest loops _⟩
  | .stmt stmt rest, loops, table =>
    List.forall_mem_append.mpr ⟨Stmt.isIn_visits stmt loops table,
      forall_mem_behind fun _ => Items.isIn_visits rest loops _⟩

end

end

namespace Declared

/-- The check of a function that passes comes to all statements of its body. -/
theorem visited_declareFunction {declared declared' : Declared} {result : ResultType} {name : Name}
    {params : List (Slot Param)} {closing : Slot Place} {body : Slot Block}
    (given : (declared.declareFunction result name params closing body).Gives declared') :
    ∃ ty block, (result.resolve declared.table).Gives ty ∧ body = .found block ∧
      ∀ loops stmt, (loops, .stmt stmt) ∈ block.items.items 0 →
        ∃ table, .stmt ⟨name.value, ty, declared.depth + 1⟩ loops table stmt ∈
            declared.visitsOfFunction result name params closing body ∧
          stmt.HeadIsSound ⟨name.value, ty, declared.depth + 1⟩ table := by
  simp only [declareFunction, gives_bind] at given
  obtain ⟨ty, hty, table, htable, table', hparams, _, hclosing, block, hblock, table'', checks, -⟩ :=
    given
  have found := gives_require.mp hblock
  refine ⟨ty, block, hty, found, ?_⟩
  intro loops stmt among
  have visits : declared.visitsOfFunction result name params closing body =
      block.items.visits ⟨name.value, ty, declared.depth + 1⟩ 0 table' := by
    simp only [visitsOfFunction, behind_of_gives hty, behind_of_gives htable,
      behind_of_gives hparams, behind_of_gives hclosing, behind_of_gives hblock]
  simp only [Block.check, gives_bind] at checks
  obtain ⟨inner, checks, -⟩ := checks
  have comes := Items.visits_check ⟨name.value, ty, declared.depth + 1⟩ block.items 0 table'
  rw [← comes.all _ checks] at among
  obtain ⟨visit, among, same⟩ := List.mem_map.mp among
  have isIn := Items.isIn_visits _ block.items 0 table' visit among
  cases visit with
  | decl => cases same
  | stmt scope' loops' known stmt' =>
    obtain ⟨rfl, rfl⟩ : loops' = loops ∧ stmt' = stmt := by simpa [Visit.item] using same
    obtain rfl : scope' = _ := isIn
    refine ⟨known, visits ▸ among, ?_⟩
    cases checked : (stmt'.check _ loops' known).result with
    | ok table => exact Stmt.headIsSound_of_check checked
    | error fault => cases checks.symm.trans (comes.fails _ among fault checked)

end Declared

namespace Program

theorem visitsFrom_append {declared declared' : Declared} {before decls : List Decl}
    (given : (before.foldlM Decl.check declared).Gives declared') :
    ∀ visit ∈ visitsFrom declared' decls, visit ∈ visitsFrom declared (before ++ decls) := by
  induction before generalizing declared with
  | nil =>
    obtain rfl : declared' = declared := by simpa using given
    exact fun _ => id
  | cons decl before ih =>
    rw [List.foldlM_cons, gives_bind] at given
    obtain ⟨middle, given, given'⟩ := given
    intro visit among
    refine List.mem_append_right _ ?_
    rw [behind_of_gives given]
    exact ih given' visit among

variable {tokens : List Token} {program : Program}

/-- In an accepted program the check comes to all statements in the body of a function, in the scope
that has the result type of the function, and their heads are sound. -/
theorem sound_of_accepted (accepted : (ofTokens tokens).result = .ok program)
    {before decls' : List Decl} {result : ResultType} {name : Name} {opening : Place}
    {params : Option (Separated (Slot Param))} {closing : Slot Place} {body : Slot Block}
    (written : decls tokens =
      before ++ .function result name opening params closing body :: decls') :
    ∃ declared ty block, (before.foldlM Decl.check ⟨.initial, 0⟩).Gives declared ∧
      (result.resolve declared.table).Gives ty ∧ body = .found block ∧
      ∀ loops stmt, (loops, .stmt stmt) ∈ block.items.items 0 →
        ∃ table, .stmt ⟨name.value, ty, declared.depth + 1⟩ loops table stmt ∈ visits tokens ∧
          stmt.HeadIsSound ⟨name.value, ty, declared.depth + 1⟩ table := by
  have given := gives_decls accepted
  simp only [tableOfDecls, gives_bind] at given
  obtain ⟨last, given, -⟩ := given
  rw [written, List.foldlM_append, gives_bind] at given
  obtain ⟨declared, prior, given⟩ := given
  rw [List.foldlM_cons, gives_bind] at given
  obtain ⟨next, given, -⟩ := given
  simp only [Decl.check, gives_bind] at given
  obtain ⟨_, -, given⟩ := given
  obtain ⟨ty, block, resolves, found, sound⟩ := declared.visited_declareFunction given
  refine ⟨declared, ty, block, prior, resolves, found, fun loops stmt among => ?_⟩
  obtain ⟨table, among, isSound⟩ := sound loops stmt among
  refine ⟨table, ?_, isSound⟩
  rw [visits, written]
  exact visitsFrom_append prior _ (List.mem_append_left _ among)

end Program

end PlainC
