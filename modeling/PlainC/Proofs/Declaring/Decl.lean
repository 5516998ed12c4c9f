import PlainC.Proofs.Declaring.Variables

set_option autoImplicit false

/-!
What the check of declarations gives is what the judgement says, and nothing is left of the bodies of
functions.
-/

namespace PlainC

open Checked

/-! ### Bodies -/

/-- Symbols are only put behind those of the table. -/
def SymbolTable.Appends (table table' : SymbolTable) : Prop :=
  ∃ locals, table'.symbols = table.symbols ++ locals

namespace SymbolTable.Appends

variable {table table' table'' : SymbolTable}

theorem refl (table : SymbolTable) : table.Appends table := ⟨[], by simp⟩

theorem trans (first : table.Appends table') (next : table'.Appends table'') :
    table.Appends table'' := by
  obtain ⟨locals, same⟩ := first
  obtain ⟨locals', same'⟩ := next
  exact ⟨locals ++ locals', by rw [same', same, List.append_assoc]⟩

end SymbolTable.Appends

/-- A variable of a function comes behind everything else. -/
theorem Declarator.appends {depth : Nat} {base : Base} {declarator : Declarator}
    {table table' : SymbolTable} (h : (declarator.declare (.body depth) base table).Gives table') :
    table.Appends table' := by
  obtain ⟨name, ty, -, -, added⟩ := Declarator.gives_declare.mp h
  obtain ⟨-, appended⟩ := Region.symbols_declare added
  exact ⟨_, appended⟩

theorem VarDecl.appends {depth : Nat} {decl : VarDecl} {table table' : SymbolTable}
    (h : (decl.declare (.body depth) table).Gives table') : table.Appends table' := by
  simp only [VarDecl.declare, gives_bind, gives_pure] at h
  obtain ⟨base, -, _, declared, _, -, rfl⟩ := h
  refine gives_foldlM_induction (motive := fun _ table table' => table.Appends table') .refl ?_
    declared
  intro _ _ _ _ _ first rest
  exact (Declarator.appends first).trans rest

mutual

/-- The declarations of variables in a statement, in order. -/
def Stmt.varDecls : Stmt → List VarDecl
  | .block _ inner _ => inner.varDecls
  | .ifThen _ _ body | .whileLoop _ _ body | .forLoop _ _ body => body.varDecls
  | .ifElse _ _ body _ otherwise => body.varDecls ++ otherwise.varDecls
  | .breakLoop .. | .returnValue .. | .empty .. | .expr .. | .missing .. => []

def Items.varDecls : Items → List VarDecl
  | .nil => []
  | .decl decl rest => decl :: rest.varDecls
  | .stmt stmt rest => stmt.varDecls ++ rest.varDecls

end

mutual

/-- The table behind a statement is the one behind the declarations of variables in it. -/
theorem Stmt.gives_varDecls {scope : FunctionScope} : ∀ {stmt : Stmt} {loops : Nat}
    {table table' : SymbolTable}, (stmt.check scope loops table).Gives table' →
      (stmt.varDecls.foldlM (VarDecl.declare (.body scope.depth)) table).Gives table'
  | .block _ inner _, loops, table, table', h => by
    simp only [Stmt.check, gives_bind, gives_pure] at h
    obtain ⟨middle, checked, _, -, rfl⟩ := h
    exact Items.gives_varDecls checked
  | .ifThen _ condition body, loops, table, table', h
  | .whileLoop _ condition body, loops, table, table', h
  | .forLoop _ condition body, loops, table, table', h => by
    simp only [Stmt.check, gives_bind] at h
    obtain ⟨_, -, checked⟩ := h
    rw [Stmt.varDecls]
    exact Stmt.gives_varDecls checked
  | .ifElse _ condition body _ otherwise, loops, table, table', h => by
    simp only [Stmt.check, gives_bind] at h
    obtain ⟨_, -, middle, first, second⟩ := h
    rw [Stmt.varDecls, List.foldlM_append, gives_bind]
    exact ⟨middle, Stmt.gives_varDecls first, Stmt.gives_varDecls second⟩
  | .breakLoop word semicolon, loops, table, table', h => by
    by_cases outside : loops = 0
    · simp [Stmt.check, outside] at h
    · simp only [Stmt.check, outside, if_false, gives_bind, gives_pure] at h
      obtain ⟨_, -, rfl⟩ := h
      exact gives_pure.mpr rfl
  | .returnValue word value semicolon, loops, table, table', h => by
    simp only [Stmt.check, gives_bind, gives_pure] at h
    obtain ⟨_, -, _, -, rfl⟩ := h
    exact gives_pure.mpr rfl
  | .empty _, loops, table, table', h => by
    obtain rfl := gives_pure.mp h
    exact gives_pure.mpr rfl
  | .expr expr semicolon, loops, table, table', h => by
    simp only [Stmt.check, gives_bind, gives_pure] at h
    obtain ⟨_, -, _, -, rfl⟩ := h
    exact gives_pure.mpr rfl
  | .missing instead, loops, table, table', h => absurd h gives_unexpected

theorem Items.gives_varDecls {scope : FunctionScope} : ∀ {items : Items} {loops : Nat}
    {table table' : SymbolTable}, (items.check scope loops table).Gives table' →
      (items.varDecls.foldlM (VarDecl.declare (.body scope.depth)) table).Gives table'
  | .nil, loops, table, table', h => h
  | .decl varDecl rest, loops, table, table', h => by
    simp only [Items.check, gives_bind] at h
    obtain ⟨middle, declared, checked⟩ := h
    rw [Items.varDecls, List.foldlM_cons, gives_bind]
    exact ⟨middle, declared, Items.gives_varDecls checked⟩
  | .stmt first rest, loops, table, table', h => by
    simp only [Items.check, gives_bind] at h
    obtain ⟨middle, first, checked⟩ := h
    rw [Items.varDecls, List.foldlM_append, gives_bind]
    exact ⟨middle, Stmt.gives_varDecls first, Items.gives_varDecls checked⟩

end

theorem Block.gives_varDecls {scope : FunctionScope} {block : Block} {table table' : SymbolTable}
    (h : (block.check scope table).Gives table') :
    (block.items.varDecls.foldlM (VarDecl.declare (.body scope.depth)) table).Gives table' := by
  simp only [Block.check, gives_bind, gives_pure] at h
  obtain ⟨_, checked, _, -, rfl⟩ := h
  exact Items.gives_varDecls checked

theorem VarDecl.appends_foldlM {depth : Nat} {decls : List VarDecl} {table table' : SymbolTable}
    (h : (decls.foldlM (declare (.body depth)) table).Gives table') : table.Appends table' := by
  refine gives_foldlM_induction (motive := fun _ table table' => table.Appends table') .refl ?_ h
  intro _ _ _ _ _ first rest
  exact (VarDecl.appends first).trans rest

theorem Block.appends {scope : FunctionScope} {block : Block} {table table' : SymbolTable}
    (h : (block.check scope table).Gives table') : table.Appends table' :=
  VarDecl.appends_foldlM (Block.gives_varDecls h)

/-! ### Parameters -/

/-- What is no struct makes no difference to the meaning of a base type. -/
theorem BaseName.Denotes.of_noStruct {table table' : SymbolTable} {name : BaseName} {base : Base}
    {more : List Symbol} (h : name.Denotes table' base)
    (same : table'.symbols = table.symbols ++ more)
    (noStruct : ∀ symbol ∈ more, symbol.cls ≠ .struct) : name.Denotes table base := by
  refine h.of_append same fun index isStruct => ?_
  subst isStruct
  cases h with
  | @struct _ _ _ symbol latest =>
    have found := latest.get?_eq
    obtain ⟨_, _, _, _, passes, -⟩ := latest
    rw [SymbolTable.get?, same] at found
    by_cases inside : index < table.size
    · exact inside
    · rw [List.getElem?_append_right (Nat.le_of_not_lt inside)] at found
      exact absurd passes.2 (noStruct symbol (List.mem_of_getElem? found))

/-- Parameters come behind the function, and become its arguments. -/
theorem params_of_gives {front table table' : SymbolTable} {owner : Symbol} {locals : List Symbol}
    {depth : Nat} {params : List (Slot Param)}
    (formed : ∀ param, Slot.found param ∈ params → param.Formed)
    (same : table.symbols = front.symbols ++ owner :: locals) (function : owner.cls = .function)
    (areVars : ∀ symbol ∈ locals, symbol.cls = .var)
    (h : (params.foldlM (Param.declare front.size depth) table).Gives table') :
    ∃ args, List.Forall₂ (Param.IsArg front depth) params args ∧
      table'.symbols =
        front.symbols ++ { owner with args := owner.args ++ args } :: (locals ++ args) := by
  induction params generalizing table owner locals with
  | nil =>
    obtain rfl := gives_pure.mp h
    cases owner
    exact ⟨[], .nil, by simpa using same⟩
  | cons slot params ih =>
    rw [List.foldlM_cons, gives_bind] at h
    obtain ⟨middle, declared, h⟩ := h
    obtain ⟨⟨baseName, _, array⟩, base, name, extent, rfl, resolved, rfl, sized, -, added⟩ :=
      Param.gives_declare.mp declared
    generalize arg_eq : Param.symbol depth name base extent = arg at added
    have noStruct : ∀ symbol ∈ owner :: locals, symbol.cls ≠ .struct := by
      intro symbol mem
      rcases List.mem_cons.mp mem with rfl | among
      · simp [function]
      · simp [areVars symbol among]
    -- the function and its parameters are no structs, so a type means what it did in front of them
    have isArg : Param.IsArg front depth (.found ⟨baseName, .found name, array⟩) arg := by
      have formedArray : array.Formed := formed ⟨baseName, .found name, array⟩ (by simp)
      rw [← arg_eq]
      exact .intro ((BaseName.gives_resolve.mp resolved).of_noStruct same noStruct)
        ((ArrayPart.gives_extent formedArray).mp sized)
    have same' : middle.symbols =
        front.symbols ++ { owner with args := owner.args ++ [arg] } :: (locals ++ [arg]) := by
      rw [added, SymbolTable.symbols_addArg]
      simp only [same, List.append_assoc, List.cons_append]
      exact modify_append_right front.symbols _ 0 _
    have areVars' : ∀ symbol ∈ locals ++ [arg], symbol.cls = .var := by
      simpa [or_imp, forall_and, ← arg_eq, Param.symbol] using areVars
    obtain ⟨args, others, last⟩ := ih (fun param mem => formed param (by simp [mem])) same'
      function areVars' h
    exact ⟨arg :: args, .cons isArg others, by simp [last]⟩

/-! ### Declarations -/

theorem ResultType.denotes_of_gives {table : SymbolTable} {result : ResultType} {ty : Ty}
    (h : (result.resolve table).Gives ty) : result.Denotes table ty := by
  cases result with
  | void =>
    obtain rfl := gives_pure.mp h
    exact .void
  | value baseName =>
    simp only [ResultType.resolve, gives_bind, gives_pure, BaseName.gives_resolve] at h
    obtain ⟨base, denotes, rfl⟩ := h
    exact .value denotes
  | array baseName star =>
    simp only [ResultType.resolve, gives_bind, gives_pure, BaseName.gives_resolve] at h
    obtain ⟨base, denotes, rfl⟩ := h
    exact .array denotes

theorem formed_params {params : Option (Separated (Slot Param))}
    (formed : ∀ items ∈ params, ∀ param, Slot.found param ∈ items.toList → param.Formed) :
    ∀ param, Slot.found param ∈ (params.map Separated.toList).getD [] → param.Formed := by
  cases params with
  | none => simp
  | some items => exact formed items rfl

theorem Decl.declares_of_gives {decl : Decl} {declared declared' : Declared}
    (formed : decl.Formed) (h : (decl.check declared).Gives declared') :
    ∃ symbols, decl.Declares declared.table declared.depth symbols ∧
      declared'.table.symbols = declared.table.symbols ++ symbols ∧
      declared'.depth = declared.depth + decl.functions := by
  cases decl with
  | struct word name opening members closing semicolon =>
    simp only [Decl.check, Declared.declareStruct] at h
    split at h
    · simp [Checked.redefined] at h
    · simp only [gives_bind, gives_pure, SymbolTable.gives_declare, gives_requireMark,
        gives_write] at h
      obtain ⟨_, ⟨-, rfl⟩, table, added, _, ⟨_, rfl⟩, _, ⟨_, rfl⟩, _, -, rfl⟩ := h
      obtain ⟨symbols, areMembers, same⟩ := memberDecls_of_gives formed rfl added
      exact ⟨_, .struct areMembers, by simpa [topLevelSymbol] using same, rfl⟩
  | function result name opening params closing body =>
    simp only [Decl.check, Declared.declareFunction, gives_bind, gives_pure,
      SymbolTable.gives_declare, gives_requireMark, gives_require, gives_write] at h
    obtain ⟨_, -, ty, resolved, _, ⟨-, rfl⟩, table, added, _, ⟨_, rfl⟩, block, rfl, table', checked,
      _, -, rfl⟩ := h
    have formedParams := formed_params formed.1
    obtain ⟨args, areArgs, same⟩ := params_of_gives formedParams rfl rfl (by simp) added
    obtain ⟨locals, same'⟩ := Block.appends checked
    refine ⟨_, .function (ResultType.denotes_of_gives resolved) areArgs, ?_, rfl⟩
    rw [SymbolTable.symbols_truncate, same', same, List.append_assoc, SymbolTable.size,
      List.take_length_add_append]
    simp [topLevelSymbol]
  | vars tried decl =>
    simp only [Decl.check, VarDecl.declare, gives_bind, gives_pure, gives_requireMark,
      BaseName.gives_resolve] at h
    obtain ⟨_, -, _, -, _, -, _, ⟨base, denotes, table, added, _, ⟨_, closed⟩, rfl⟩, rfl⟩ := h
    obtain ⟨baseName, declarators, semicolon⟩ := decl
    obtain rfl : semicolon = .found _ := closed
    obtain ⟨symbols, variables', same⟩ := variables_of_gives formed.1 added
    exact ⟨symbols, .vars denotes variables', same, rfl⟩
  | missing tried instead =>
    simp [Decl.check] at h

theorem declarations_of_gives {decls : List Decl} {declared declared' : Declared}
    (formed : ∀ decl ∈ decls, decl.Formed)
    (h : (decls.foldlM Decl.check declared).Gives declared') :
    ∃ symbols, Declarations declared.table declared.depth decls symbols ∧
      declared'.table.symbols = declared.table.symbols ++ symbols := by
  induction decls generalizing declared with
  | nil =>
    obtain rfl := gives_pure.mp h
    exact ⟨[], .nil, by simp⟩
  | cons decl decls ih =>
    rw [List.foldlM_cons, gives_bind] at h
    obtain ⟨middle, checked, h⟩ := h
    obtain ⟨symbols, declares, same, depth⟩ :=
      Decl.declares_of_gives (formed decl (by simp)) checked
    obtain ⟨symbols', others, last⟩ := ih (fun d mem => formed d (by simp [mem])) h
    exact ⟨symbols ++ symbols', .cons declares same (depth ▸ others),
      by rw [last, same, List.append_assoc]⟩

end PlainC
