import PlainC.Proofs.Visits.Basic

set_option autoImplicit false

/-!
What the declarations of a program keep of the symbol table holds wherever the check comes to.
-/

namespace PlainC

/-- All that declarations do to a table keeps a property of it. -/
structure SymbolTable.Invariant (P : SymbolTable → Prop) : Prop where
  initial : P .initial
  vars : ∀ {region : Region} {decl : VarDecl} {table table' : SymbolTable}, P table →
    (decl.declare region table).Gives table' → P table'
  param : ∀ {index depth : Nat} {slot : Slot Param} {table table' : SymbolTable}, P table →
    (Param.declare index depth table slot).Gives table' → P table'
  struct : ∀ {name : Name} {index : Nat} {table table' : SymbolTable}, P table →
    (table.declare name (topLevelSymbol name .struct (.struct index))).Gives table' → P table'
  function : ∀ {result : ResultType} {name : Name} {ty : Ty} {table table' : SymbolTable}, P table →
    (result.resolve table).Gives ty →
      (table.declare name (topLevelSymbol name .function ty)).Gives table' → P table'
  truncate : ∀ {table : SymbolTable} (size : Nat), P table → P (table.truncate size)

/-- A check comes to visits with a property only, and to a result with one. -/
structure Checked.Holds {α : Type} (x : Checked α) (Q : Visit → Prop) (P : α → Prop)
    (visits : List Visit) : Prop where
  visited : ∀ visit ∈ visits, Q visit
  given : ∀ a, x.Gives a → P a

namespace Checked.Holds

variable {α β : Type} {x : Checked α} {next : α → Checked β} {Q : Visit → Prop} {P : α → Prop}
  {R : β → Prop} {vs : List Visit} {ws : α → List Visit}

theorem bind (h : x.Holds Q P vs) (h' : ∀ a, P a → (next a).Holds Q R (ws a)) :
    (x >>= next).Holds Q R (vs ++ x.behind ws) := by
  refine ⟨List.forall_mem_append.mpr ⟨h.visited, fun visit among => ?_⟩, fun b given => ?_⟩
  · obtain ⟨a, given, among⟩ := mem_behind.mp among
    exact (h' a (h.given a given)).visited visit among
  · obtain ⟨a, given, given'⟩ := gives_bind.mp given
    exact (h' a (h.given a given)).given b given'

/-- Behind a check that comes to nothing. -/
theorem behind (h : ∀ a, x.Gives a → (next a).Holds Q R (ws a)) :
    (x >>= next).Holds Q R (x.behind ws) := by
  have first : x.Holds Q x.Gives [] := ⟨List.forall_mem_nil _, fun _ given => given⟩
  exact first.bind h

/-- In front of a check that comes to nothing. -/
theorem before (h : x.Holds Q P vs) (h' : ∀ a b, P a → (next a).Gives b → R b) :
    (x >>= next).Holds Q R vs := by
  refine ⟨h.visited, fun b given => ?_⟩
  obtain ⟨a, given, given'⟩ := gives_bind.mp given
  exact h' a b (h.given a given) given'

theorem cons (visit : Visit) (holds : Q visit) (h : x.Holds Q P vs) :
    x.Holds Q P (visit :: vs) :=
  ⟨List.forall_mem_cons.mpr ⟨holds, h.visited⟩, h.given⟩

end Checked.Holds

open Checked

variable {P : SymbolTable → Prop}

/-- The property is one of the table. -/
def Visit.Has (P : SymbolTable → Prop) (visit : Visit) : Prop := P visit.table

/-- A check that, if it passes, gives the table back. -/
theorem holds_same {x : Checked SymbolTable} {table : SymbolTable} (holds : P table)
    (same : ∀ table', x.Gives table' → table' = table) : x.Holds (Visit.Has P) P [] :=
  ⟨List.forall_mem_nil _, fun table' given => same table' given ▸ holds⟩

theorem VarDecl.holds_declare (invariant : SymbolTable.Invariant P) (region : Region)
    (decl : VarDecl) {table : SymbolTable} (holds : P table) :
    (decl.declare region table).Holds (Visit.Has P) P [] :=
  ⟨List.forall_mem_nil _, fun _ given => invariant.vars holds given⟩

mutual

theorem Stmt.holds_check (invariant : SymbolTable.Invariant P) (scope : FunctionScope) :
    ∀ (stmt : Stmt) (loops : Nat) {table : SymbolTable}, P table →
      (stmt.check scope loops table).Holds (Visit.Has P) P (stmt.visits scope loops table)
  | .block opening inner closing, loops, table, holds => by
    simp only [Stmt.check, Stmt.visits]
    refine Holds.cons _ holds ((Items.holds_check invariant scope inner loops holds).before ?_)
    intro table _ kept given
    simp only [gives_bind, gives_pure] at given
    obtain ⟨_, -, rfl⟩ := given
    exact kept
  | .ifThen word condition body, loops, table, holds => by
    simp only [Stmt.check, Stmt.visits]
    exact .cons _ holds (.behind fun _ _ => Stmt.holds_check invariant scope body loops holds)
  | .ifElse word condition body elseWord otherwise, loops, table, holds => by
    simp only [Stmt.check, Stmt.visits]
    refine .cons _ holds (.behind fun _ _ => ?_)
    exact (Stmt.holds_check invariant scope body loops holds).bind fun table kept =>
      Stmt.holds_check invariant scope otherwise loops kept
  | .whileLoop word condition body, loops, table, holds => by
    simp only [Stmt.check, Stmt.visits]
    exact .cons _ holds (.behind fun _ _ => Stmt.holds_check invariant scope body (loops + 1) holds)
  | .forLoop word header body, loops, table, holds => by
    simp only [Stmt.check, Stmt.visits]
    exact .cons _ holds (.behind fun _ _ => Stmt.holds_check invariant scope body (loops + 1) holds)
  | .breakLoop word semicolon, loops, table, holds => by
    simp only [Stmt.check, Stmt.visits]
    refine .cons _ holds (holds_same holds fun table' given => ?_)
    simp only [gives_ite, gives_bind, gives_pure, gives_violate, false_and, exists_false, and_false,
      false_or] at given
    obtain ⟨-, _, -, same⟩ := given
    exact same
  | .returnValue word value semicolon, loops, table, holds => by
    simp only [Stmt.check, Stmt.visits]
    refine .cons _ holds (holds_same holds fun table' given => ?_)
    simp only [gives_bind, gives_pure] at given
    obtain ⟨_, -, _, -, same⟩ := given
    exact same
  | .empty semicolon, loops, table, holds => by
    simp only [Stmt.check, Stmt.visits]
    exact .cons _ holds (holds_same holds fun table' given => gives_pure.mp given)
  | .expr expr semicolon, loops, table, holds => by
    simp only [Stmt.check, Stmt.visits]
    refine .cons _ holds (holds_same holds fun table' given => ?_)
    simp only [gives_bind, gives_pure] at given
    obtain ⟨_, -, _, -, same⟩ := given
    exact same
  | .missing instead, loops, table, holds => by
    simp only [Stmt.check, Stmt.visits]
    exact .cons _ holds (holds_same holds fun table' given => absurd given gives_unexpected)

theorem Items.holds_check (invariant : SymbolTable.Invariant P) (scope : FunctionScope) :
    ∀ (inner : Items) (loops : Nat) {table : SymbolTable}, P table →
      (inner.check scope loops table).Holds (Visit.Has P) P (inner.visits scope loops table)
  | .nil, loops, table, holds => holds_same holds fun table' given => gives_pure.mp given
  | .decl decl rest, loops, table, holds => by
    simp only [Items.check, Items.visits]
    have first := Holds.cons (.decl (.body scope.depth) loops table decl) holds
      (VarDecl.holds_declare invariant (.body scope.depth) decl holds)
    exact first.bind fun table kept => Items.holds_check invariant scope rest loops kept
  | .stmt stmt rest, loops, table, holds => by
    simp only [Items.check, Items.visits]
    exact (Stmt.holds_check invariant scope stmt loops holds).bind fun table kept =>
      Items.holds_check invariant scope rest loops kept

end

section

variable (invariant : SymbolTable.Invariant P)

include invariant

theorem Visit.holds_check {visit : Visit} {table : SymbolTable} (holds : visit.Has P)
    (given : visit.check.Gives table) : P table := by
  cases visit with
  | decl region loops known varDecl => exact invariant.vars holds given
  | stmt scope loops known statement =>
    exact (Stmt.holds_check invariant scope statement loops holds).given table given

theorem VarDecl.holds_foldlM (region : Region) (decls : List VarDecl) {table : SymbolTable}
    (holds : P table) : (decls.foldlM (VarDecl.declare region) table).Holds (Visit.Has P) P
      (visits region table decls) := by
  induction decls generalizing table with
  | nil => exact holds_same holds fun table' given => gives_pure.mp given
  | cons decl decls ih =>
    rw [List.foldlM_cons]
    have first := Holds.cons (.decl region 0 table decl) holds
      (VarDecl.holds_declare invariant region decl holds)
    exact first.bind fun table kept => ih kept

theorem Param.holds_foldlM (index depth : Nat) (params : List (Slot Param)) {table : SymbolTable}
    (holds : P table) : ∀ table', (params.foldlM (Param.declare index depth) table).Gives table' →
      P table' :=
  fun _ given => keeps_foldlM (fun _ _ _ holds declared => invariant.param holds declared) holds given

theorem Declared.holds_declareStruct (declared : Declared) (name : Name) (members : List VarDecl)
    (closing semicolon : Slot Place) (holds : P declared.table) :
    (declared.declareStruct name members closing semicolon).Holds (Visit.Has P)
      (fun declared => P declared.table) (declared.visitsOfStruct name members) := by
  unfold declareStruct visitsOfStruct
  cases declared.table.find? name.value with
  | some previous =>
    refine ⟨List.forall_mem_nil _, fun declared' given => ?_⟩
    simp [redefined] at given
  | none =>
    simp only
    refine .behind fun table added => ?_
    have kept := invariant.struct holds added
    refine (VarDecl.holds_foldlM invariant _ members kept).before ?_
    intro table' declared' kept' given
    simp only [gives_bind, gives_pure] at given
    obtain ⟨_, -, _, -, _, -, rfl⟩ := given
    exact kept'

theorem Declared.holds_declareFunction (declared : Declared) (result : ResultType) (name : Name)
    (params : List (Slot Param)) (closing : Slot Place) (body : Slot Block)
    (holds : P declared.table) :
    (declared.declareFunction result name params closing body).Holds (Visit.Has P)
      (fun declared => P declared.table)
      (declared.visitsOfFunction result name params closing body) := by
  unfold declareFunction visitsOfFunction
  simp only
  refine .behind fun ty resolved => .behind fun table added => .behind fun table' fits => ?_
  have kept := Param.holds_foldlM invariant _ _ params (invariant.function holds resolved added)
    table' fits
  refine .behind fun _ _ => .behind fun block _ => ?_
  have body : (block.check ⟨name.value, ty, declared.depth + 1⟩ table').Holds (Visit.Has P) P
      (block.items.visits ⟨name.value, ty, declared.depth + 1⟩ 0 table') := by
    refine (Items.holds_check invariant _ block.items 0 kept).before ?_
    intro table table'' kept given
    simp only [gives_bind, gives_pure] at given
    obtain ⟨_, -, rfl⟩ := given
    exact kept
  refine body.before fun table declared' kept given => ?_
  simp only [gives_bind, gives_pure] at given
  obtain ⟨_, -, rfl⟩ := given
  exact invariant.truncate _ kept

/-- What a declaration declares has the property, and so have all tables in it. -/
theorem Decl.holds_check (decl : Decl) {declared : Declared} (holds : P declared.table) :
    (decl.check declared).Holds (Visit.Has P) (fun declared => P declared.table)
      (decl.visits declared) := by
  cases decl with
  | struct word name opening members closing semicolon =>
    exact declared.holds_declareStruct invariant name members closing semicolon holds
  | function result name opening params closing body =>
    have whole := declared.holds_declareFunction invariant result name
      ((params.map Separated.toList).getD []) closing body holds
    refine ⟨whole.visited, fun declared' given => ?_⟩
    simp only [Decl.check, gives_bind] at given
    obtain ⟨_, -, given⟩ := given
    exact whole.given declared' given
  | vars tried decl =>
    refine ⟨List.forall_mem_singleton.mpr holds, fun declared' given => ?_⟩
    simp only [Decl.check, gives_bind, gives_pure] at given
    obtain ⟨_, -, _, -, _, -, table, added, rfl⟩ := given
    exact invariant.vars holds added
  | missing tried instead =>
    refine ⟨List.forall_mem_nil _, fun declared' given => ?_⟩
    simp [Decl.check] at given

namespace Program

theorem holds_foldlM (decls : List Decl) {declared : Declared} (holds : P declared.table) :
    (decls.foldlM Decl.check declared).Holds (Visit.Has P) (fun declared => P declared.table)
      (visitsFrom declared decls) := by
  induction decls generalizing declared with
  | nil =>
    refine ⟨List.forall_mem_nil _, fun declared' given => ?_⟩
    obtain rfl := gives_pure.mp given
    exact holds
  | cons decl decls ih =>
    rw [List.foldlM_cons]
    exact (decl.holds_check invariant holds).bind fun declared kept => ih kept

theorem holds_tableOfDecls (decls : List Decl) :
    (tableOfDecls decls).Holds (Visit.Has P) P (visitsFrom ⟨.initial, 0⟩ decls) := by
  refine (holds_foldlM invariant decls invariant.initial).before fun declared table kept given => ?_
  obtain rfl := gives_pure.mp given
  exact kept

end Program

end

end PlainC
