import PlainC.Proofs.Declaring.Redefinition

set_option autoImplicit false

/-!
What checks write to the log besides traces. A check of types, expressions, statements or variables
only ever notes where the reading went back, and so it adds nothing to what is written about the
declarations.
-/

namespace PlainC

/-- What a computation writes without the traces. -/
def Logged.debug {ε α : Type} (x : Logged ε α) : List LogRecord :=
  x.records.filter fun record => record.level = "DEBUG"

namespace Checked

variable {α β : Type} {x : Checked α} {next : α → Checked β} {a : α}

theorem debug_bind (given : x.Gives a) (next : α → Checked β) :
    (x >>= next).debug = x.debug ++ (next a).debug := by
  rw [Logged.bind_of_ok next given]
  exact List.filter_append ..

/-- The check writes traces at most. -/
def Quiet (x : Checked α) : Prop := x.debug = []

theorem Quiet.debug_bind (quiet : Quiet x) (given : x.Gives a) (next : α → Checked β) :
    (x >>= next).debug = (next a).debug := by
  rw [Checked.debug_bind given, quiet, List.nil_append]

theorem Quiet.bind (first : Quiet x) (second : ∀ a, Quiet (next a)) : Quiet (x >>= next) := by
  cases given : x.result with
  | ok a => exact (first.debug_bind given next).trans (second a)
  | error fault =>
    rw [Logged.bind_of_error next given]
    exact first

theorem Quiet.withoutFirst (quiet : Quiet x) : Quiet x.withoutFirst := by
  refine List.eq_nil_of_subset_nil ?_
  rw [← show x.debug = [] from quiet]
  exact ((List.drop_sublist 1 x.records).filter _).subset

@[simp] theorem quiet_pure (a : α) : Quiet (pure a) := rfl

@[simp] theorem quiet_violate (violation : Violation) (place : Place) :
    Quiet (violate violation place : Checked α) := rfl

@[simp] theorem quiet_unexpected (wanted : Wanted) (instead : Lexeme) :
    Quiet (unexpected wanted instead : Checked α) := rfl

@[simp] theorem quiet_redefined (name : Name) (line : Nat) :
    Quiet (redefined name line : Checked α) := rfl

theorem quiet_backtracked (count : Nat) (place : Place) : Quiet (backtracked count place) := rfl

theorem quiet_require (wanted : Wanted) (slot : Slot α) : Quiet (require wanted slot) := by
  cases slot <;> rfl

theorem quiet_requireMark (mark : Delimiter) (slot : Slot Place) : Quiet (requireMark mark slot) :=
  (quiet_require _ slot).bind fun _ => quiet_pure ()

/-- A rule that is checked in front of the rest. -/
theorem quiet_unless {broken : Prop} [Decidable broken] {violation : Violation} {place : Place}
    {next : Unit → Checked β} (rest : Quiet (next ())) :
    Quiet (if broken then violate violation place >>= next else next ()) := by
  split
  · rfl
  · exact rest

theorem quiet_foldlM {σ : Type} {step : σ → α → Checked σ} (steps : ∀ s a, Quiet (step s a))
    (items : List α) (s : σ) : Quiet (items.foldlM step s) := by
  induction items generalizing s with
  | nil => exact quiet_pure s
  | cons a items ih =>
    rw [List.foldlM_cons]
    exact (steps s a).bind ih

theorem Plain.quiet (plain : Plain x) : Quiet x := by
  induction plain with
  | given a => exact quiet_pure a
  | refused => rfl
  | traced count place => exact quiet_backtracked count place
  | bind _ _ first second => exact first.bind second
  | withoutFirst _ ih => exact ih.withoutFirst

end Checked

open Checked

/-! ### Declarations of variables -/

theorem SymbolTable.quiet_declare (table : SymbolTable) (name : Name) (symbol : Symbol) :
    Quiet (table.declare name symbol) := by
  unfold SymbolTable.declare
  split
  all_goals simp

theorem Region.quiet_declare (region : Region) (table : SymbolTable) (name : Name) (ty : Ty) :
    Quiet (region.declare table name ty) := by
  cases region with
  | topLevel | body => exact table.quiet_declare name _
  | members index struct =>
    simp only [Region.declare]
    repeat' split
    all_goals simp

theorem Declarator.quiet_declare (region : Region) (base : Base) (table : SymbolTable)
    (declarator : Declarator) : Quiet (declarator.declare region base table) := by
  refine (quiet_require _ declarator.name).bind fun name => ?_
  exact (declarator.plain_type table region name base).quiet.bind fun ty =>
    region.quiet_declare table name ty

theorem VarDecl.quiet_declare (region : Region) (table : SymbolTable) (decl : VarDecl) :
    Quiet (decl.declare region table) := by
  refine (decl.base.plain_resolve table).quiet.bind fun base => ?_
  refine (quiet_foldlM (Declarator.quiet_declare region base) _ table).bind fun table => ?_
  exact (quiet_requireMark _ _).bind fun _ => quiet_pure table

/-! ### Statements -/

mutual

theorem Stmt.quiet_check (scope : FunctionScope) :
    ∀ (loops : Nat) (table : SymbolTable) (stmt : Stmt), Quiet (stmt.check scope loops table)
  | loops, table, .block opening items closing => by
    simp only [Stmt.check]
    refine (Items.quiet_check scope loops table items).bind fun table => ?_
    exact (quiet_requireMark _ _).bind fun _ => quiet_pure table
  | loops, table, .ifThen word condition body => by
    simp only [Stmt.check]
    exact (condition.plain_check table).quiet.bind fun _ => Stmt.quiet_check scope loops table body
  | loops, table, .ifElse word condition body elseWord otherwise => by
    simp only [Stmt.check]
    refine (condition.plain_check table).quiet.bind fun _ => ?_
    exact (Stmt.quiet_check scope loops table body).bind fun table =>
      Stmt.quiet_check scope loops table otherwise
  | loops, table, .whileLoop word condition body => by
    simp only [Stmt.check]
    exact (condition.plain_check table).quiet.bind fun _ =>
      Stmt.quiet_check scope (loops + 1) table body
  | loops, table, .forLoop word header body => by
    simp only [Stmt.check]
    exact (header.plain_check table).quiet.bind fun _ =>
      Stmt.quiet_check scope (loops + 1) table body
  | loops, table, .breakLoop word semicolon => by
    simp only [Stmt.check]
    exact quiet_unless ((quiet_requireMark _ _).bind fun _ => quiet_pure table)
  | loops, table, .returnValue word value semicolon => by
    simp only [Stmt.check]
    refine (scope.plain_checkReturn table word value).quiet.bind fun _ => ?_
    exact (quiet_requireMark _ _).bind fun _ => quiet_pure table
  | loops, table, .empty semicolon => quiet_pure table
  | loops, table, .expr expr semicolon => by
    simp only [Stmt.check]
    refine (expr.plain_checkUnused table).quiet.bind fun _ => ?_
    exact (quiet_requireMark _ _).bind fun _ => quiet_pure table
  | loops, table, .missing instead => quiet_unexpected _ instead

theorem Items.quiet_check (scope : FunctionScope) (loops : Nat) :
    ∀ (table : SymbolTable) (items : Items), Quiet (items.check scope loops table)
  | table, .nil => quiet_pure table
  | table, .decl decl rest => by
    simp only [Items.check]
    exact (decl.quiet_declare _ table).bind fun table => Items.quiet_check scope loops table rest
  | table, .stmt stmt rest => by
    simp only [Items.check]
    exact (Stmt.quiet_check scope loops table stmt).bind fun table =>
      Items.quiet_check scope loops table rest

end

theorem Block.quiet_check (scope : FunctionScope) (table : SymbolTable) (block : Block) :
    Quiet (block.check scope table) := by
  refine (block.items.quiet_check scope 0 table).bind fun table => ?_
  exact (quiet_requireMark _ _).bind fun _ => quiet_pure table

/-! ### In front of the parts of a declaration -/

theorem BaseName.quiet_noteStruct (base : BaseName) : Quiet base.noteStruct := by
  unfold noteStruct
  split
  · exact quiet_backtracked _ _
  · exact quiet_pure ()

theorem ResultType.quiet_noteStruct (result : ResultType) : Quiet result.noteStruct := by
  cases result with
  | void => exact quiet_pure ()
  | value base | array base => exact base.quiet_noteStruct

theorem quiet_noteFunction (tried : Nat) (start : Place) : Quiet (noteFunction tried start) := by
  unfold noteFunction
  split
  · exact quiet_pure ()
  · exact quiet_backtracked _ _

theorem Param.quiet_declare (index depth : Nat) (table : SymbolTable) (slot : Slot Param) :
    Quiet (Param.declare index depth table slot) := by
  refine (quiet_require _ slot).bind fun param => ?_
  refine (param.base.plain_resolve table).quiet.bind fun base => ?_
  refine (quiet_require _ param.name).bind fun name => ?_
  refine param.array.plain_extent.quiet.bind fun extent => ?_
  exact (table.quiet_declare name _).bind fun table => quiet_pure _

end PlainC
