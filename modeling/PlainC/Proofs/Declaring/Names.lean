import PlainC.Proofs.Declaring.Decl
import PlainC.Proofs.Relabeling.Declarations

set_option autoImplicit false

/-!
The names that a symbol table has met. Behind those in the external functions they are the names of
all declarations in order, each where it stands first; what is taken back with the body of a function
has been met too.
-/

namespace PlainC

open Checked

/-! ### Declared names -/

def Slot.declaredNames : Slot Name → List String
  | found name => [name.value]
  | missing _ => []

/-- The names that a declaration of variables declares. -/
def VarDecl.declaredNames (decl : VarDecl) : List String :=
  decl.declarators.toList.flatMap fun declarator => declarator.name.declaredNames

mutual

/-- The names that are declared in a statement. -/
def Stmt.declaredNames : Stmt → List String
  | .block _ items _ => items.declaredNames
  | .ifThen _ _ body | .whileLoop _ _ body | .forLoop _ _ body => body.declaredNames
  | .ifElse _ _ body _ otherwise => body.declaredNames ++ otherwise.declaredNames
  | .breakLoop .. | .returnValue .. | .empty .. | .expr .. | .missing .. => []

def Items.declaredNames : Items → List String
  | .nil => []
  | .decl decl rest => decl.declaredNames ++ rest.declaredNames
  | .stmt stmt rest => stmt.declaredNames ++ rest.declaredNames

end

def Block.declaredNames (block : Block) : List String := block.items.declaredNames

def Param.declaredNames : Slot Param → List String
  | .found param => param.name.declaredNames
  | .missing _ => []

/-- The names that are declared in a declaration, at the top level and below it. -/
def Decl.declaredNames : Decl → List String
  | struct _ name _ members _ _ => name.value :: members.flatMap VarDecl.declaredNames
  | function _ name _ params _ body =>
    name.value :: (((params.map Separated.toList).getD []).flatMap Param.declaredNames ++
      match body with
      | .found block => block.declaredNames
      | .missing _ => [])
  | vars _ decl => decl.declaredNames
  | missing _ _ => []

/-! ### Names that were met -/

namespace SymbolTable

/-- The second table has met what the first one has, and then the given names in order. -/
def Meets (table : SymbolTable) (names : List String) (table' : SymbolTable) : Prop :=
  table'.names = (table.internAll names).names

variable {table table' table'' : SymbolTable} {names names' : List String}

theorem Meets.refl (table : SymbolTable) : table.Meets [] table := rfl

theorem names_intern_congr (same : table.names = table'.names) (name : String) :
    (table.intern name).names = (table'.intern name).names := by
  unfold intern
  rw [same]
  split
  · exact same
  · rfl

theorem names_internAll_congr (same : table.names = table'.names) (names : List String) :
    (table.internAll names).names = (table'.internAll names).names := by
  unfold internAll
  induction names generalizing table table' with
  | nil => exact same
  | cons name names ih => exact ih (names_intern_congr same name)

theorem Meets.trans (first : table.Meets names table') (next : table'.Meets names' table'') :
    table.Meets (names ++ names') table'' := by
  rw [Meets, next, internAll, internAll, List.foldl_append]
  exact names_internAll_congr first names'

/-- A name is met only once. -/
theorem Meets.again {name : String} (met : table.Meets [name] table') :
    table.Meets [name] (table'.internAll [name]) := by
  have mem : name ∈ table'.names := by
    rw [met]
    change name ∈ (table.intern name).names
    unfold intern
    split
    · assumption
    · simp
  have same : table'.internAll [name] = table' := if_pos mem
  rw [same]
  exact met

/-- A symbol without arguments and members has one name. -/
theorem meets_declare {name : Name} {symbol : Symbol} (plain : symbol.names = [symbol.name])
    (h : (table.declare name symbol).Gives table') : table.Meets [symbol.name] table' := by
  obtain ⟨-, rfl⟩ := gives_declare.mp h
  rw [plain]
  rfl

end SymbolTable

variable {table table' : SymbolTable}

/-! ### Checks -/

/-- What each step of a check meets, all of them meet one after the other. -/
theorem meets_foldlM {σ ι : Type} (view : σ → SymbolTable) {step : σ → ι → Checked σ}
    {names : ι → List String} {items : List ι} {s s' : σ}
    (h : (items.foldlM step s).Gives s')
    (steps : ∀ item s s', (step s item).Gives s' → (view s).Meets (names item) (view s')) :
    (view s).Meets (items.flatMap names) (view s') := by
  refine gives_foldlM_induction
    (motive := fun items s s' => (view s).Meets (items.flatMap names) (view s'))
    (fun s => .refl (view s)) ?_ h
  intro item _ s middle _ first rest
  exact (steps item s middle first).trans rest

theorem Region.meets_declare {region : Region} {name : Name} {ty : Ty}
    (h : (region.declare table name ty).Gives table') : table.Meets [name.value] table' := by
  unfold Region.declare at h
  cases region with
  | topLevel | body => exact SymbolTable.meets_declare rfl h
  | members index struct =>
    simp only [gives_ite, gives_violate, and_false, false_or] at h
    obtain ⟨-, h⟩ := h
    split at h
    · exact absurd h gives_violate
    · obtain rfl := gives_pure.mp h
      rfl

theorem Declarator.meets_declare {region : Region} {base : Base} {declarator : Declarator}
    (h : (declarator.declare region base table).Gives table') :
    table.Meets declarator.name.declaredNames table' := by
  obtain ⟨name, ty, found, -, declared⟩ := gives_declare.mp h
  rw [found]
  exact Region.meets_declare declared

theorem VarDecl.meets_declare {region : Region} {decl : VarDecl}
    (h : (decl.declare region table).Gives table') : table.Meets decl.declaredNames table' := by
  simp only [VarDecl.declare, gives_bind, gives_pure] at h
  obtain ⟨base, -, _, declared, _, -, rfl⟩ := h
  exact meets_foldlM id declared fun _ _ _ => Declarator.meets_declare

/-- A parameter is met twice, for the body of the function and as a part of the function. -/
theorem Param.meets_declare {index depth : Nat} {slot : Slot Param}
    (h : (Param.declare index depth table slot).Gives table') :
    table.Meets (Param.declaredNames slot) table' := by
  obtain ⟨⟨_, _, _⟩, base, name, extent, rfl, -, rfl, -, -, rfl⟩ := Param.gives_declare.mp h
  have met : table.Meets [name.value] { table.internAll [name.value] with
      symbols := table.symbols ++ [Param.symbol depth name base extent] } := rfl
  exact met.again

mutual

/-- The names that are declared in a statement are those of its declarations of variables. -/
theorem Stmt.declaredNames_eq : ∀ stmt : Stmt,
    stmt.declaredNames = stmt.varDecls.flatMap VarDecl.declaredNames
  | .block _ inner _ => Items.declaredNames_eq inner
  | .ifThen _ _ body | .whileLoop _ _ body | .forLoop _ _ body => Stmt.declaredNames_eq body
  | .ifElse _ _ body _ otherwise => by
    rw [Stmt.declaredNames, Stmt.varDecls, List.flatMap_append, Stmt.declaredNames_eq body,
      Stmt.declaredNames_eq otherwise]
  | .breakLoop .. | .returnValue .. | .empty .. | .expr .. | .missing .. => rfl

theorem Items.declaredNames_eq : ∀ items : Items,
    items.declaredNames = items.varDecls.flatMap VarDecl.declaredNames
  | .nil => rfl
  | .decl decl rest => by
    rw [Items.declaredNames, Items.varDecls, List.flatMap_cons, Items.declaredNames_eq rest]
  | .stmt stmt rest => by
    rw [Items.declaredNames, Items.varDecls, List.flatMap_append, Stmt.declaredNames_eq stmt,
      Items.declaredNames_eq rest]

end

theorem Items.meets_check {scope : FunctionScope} {items : Items} {loops : Nat}
    (h : (items.check scope loops table).Gives table') : table.Meets items.declaredNames table' := by
  rw [items.declaredNames_eq]
  exact meets_foldlM id (Items.gives_varDecls h) fun _ _ _ => VarDecl.meets_declare

theorem Decl.meets_check {declared declared' : Declared} {decl : Decl}
    (h : (decl.check declared).Gives declared') :
    declared.table.Meets decl.declaredNames declared'.table := by
  cases decl with
  | struct word name opening members closing semicolon =>
    simp only [Decl.check, Declared.declareStruct] at h
    split at h
    · simp [Checked.redefined] at h
    · simp only [gives_bind, gives_pure] at h
      obtain ⟨_, entered, _, added, _, -, _, -, _, -, rfl⟩ := h
      exact (SymbolTable.meets_declare rfl entered).trans
        (meets_foldlM id added fun _ _ _ => VarDecl.meets_declare)
  | function result name opening params closing body =>
    simp only [Decl.check, Declared.declareFunction, Block.check, gives_bind, gives_pure,
      gives_require] at h
    obtain ⟨_, -, ty, -, _, entered, _, added, _, -, block, rfl, _, ⟨_, checked, _, -, rfl⟩, _, -,
      rfl⟩ := h
    have params := meets_foldlM id added fun _ _ _ => Param.meets_declare
    have met := (SymbolTable.meets_declare rfl entered).trans
      (params.trans (Items.meets_check checked))
    exact met
  | vars tried decl =>
    simp only [Decl.check, gives_bind, gives_pure] at h
    obtain ⟨_, -, _, -, _, -, _, declared, rfl⟩ := h
    exact VarDecl.meets_declare declared
  | missing tried instead =>
    simp [Decl.check] at h

/-- The table of some declarations has met the names in the external functions, and then those that are
declared. -/
theorem Program.meets_tableOfDecls {decls : List Decl}
    (h : (tableOfDecls decls).Gives table) :
    SymbolTable.initial.Meets (decls.flatMap Decl.declaredNames) table := by
  simp only [tableOfDecls, gives_bind, gives_pure] at h
  obtain ⟨declared, checked, rfl⟩ := h
  exact meets_foldlM Declared.table checked fun _ _ _ => Decl.meets_check

/-! ### Relabeled declarations -/

variable {r : Relabeling}

theorem Slot.declaredNames_relabel (keeps : r.KeepsNames) (slot : Slot Name) :
    (slot.relabel r (Name.rename r)).declaredNames = slot.declaredNames := by
  cases slot with
  | found name => exact congrArg (fun name => [name]) (keeps name.value)
  | missing instead => rfl

theorem VarDecl.declaredNames_relabel (keeps : r.KeepsNames) (decl : VarDecl) :
    (decl.relabel r).declaredNames = decl.declaredNames := by
  unfold declaredNames
  simp only [relabel, Separated.toList_relabel, List.flatMap_map, Declarator.relabel,
    Slot.declaredNames_relabel keeps]

mutual

theorem Stmt.declaredNames_relabel (keeps : r.KeepsNames) : ∀ stmt : Stmt,
    (stmt.relabel r).declaredNames = stmt.declaredNames
  | .block _ items _ => Items.declaredNames_relabel keeps items
  | .ifThen _ _ body | .whileLoop _ _ body | .forLoop _ _ body =>
    Stmt.declaredNames_relabel keeps body
  | .ifElse _ _ body _ otherwise => by
    simp only [Stmt.relabel, Stmt.declaredNames, Stmt.declaredNames_relabel keeps body,
      Stmt.declaredNames_relabel keeps otherwise]
  | .breakLoop .. | .returnValue .. | .empty .. | .expr .. | .missing .. => rfl

theorem Items.declaredNames_relabel (keeps : r.KeepsNames) : ∀ items : Items,
    (items.relabel r).declaredNames = items.declaredNames
  | .nil => rfl
  | .decl decl rest => by
    simp only [Items.relabel, Items.declaredNames, VarDecl.declaredNames_relabel keeps decl,
      Items.declaredNames_relabel keeps rest]
  | .stmt stmt rest => by
    simp only [Items.relabel, Items.declaredNames, Stmt.declaredNames_relabel keeps stmt,
      Items.declaredNames_relabel keeps rest]

end

theorem Param.declaredNames_relabel (keeps : r.KeepsNames) (slot : Slot Param) :
    declaredNames (slot.relabel r (Param.relabel r)) = declaredNames slot := by
  cases slot with
  | found param => exact Slot.declaredNames_relabel keeps param.name
  | missing instead => rfl

theorem Decl.declaredNames_relabel (keeps : r.KeepsNames) (decl : Decl) :
    (decl.relabel r).declaredNames = decl.declaredNames := by
  cases decl with
  | struct word name opening members closing semicolon =>
    simp only [relabel, declaredNames, List.flatMap_map, VarDecl.declaredNames_relabel keeps,
      Name.rename, keeps name.value]
  | function result name opening params closing body =>
    have same : ((params.map (Separated.relabel r (Slot.relabel r (Param.relabel r)))).map
        Separated.toList).getD [] = ((params.map Separated.toList).getD []).map
          (Slot.relabel r (Param.relabel r)) := by
      cases params with
      | none => rfl
      | some items => exact Separated.toList_relabel ..
    simp only [relabel, declaredNames, same, List.flatMap_map, Param.declaredNames_relabel keeps,
      Name.rename, keeps name.value]
    cases body with
    | found block => exact congrArg _ (congrArg _ (Items.declaredNames_relabel keeps block.items))
    | missing instead => rfl
  | vars tried decl => exact VarDecl.declaredNames_relabel keeps decl
  | missing => rfl

/-- Relabeled declarations meet the same names, if no name is changed. -/
theorem Program.names_eq_of_relabel (keeps : r.KeepsNames) {decls : List Decl}
    {table table' : SymbolTable} (given : (tableOfDecls decls).Gives table)
    (given' : (tableOfDecls (decls.map (Decl.relabel r))).Gives table') :
    table'.names = table.names := by
  have names : (decls.map (Decl.relabel r)).flatMap Decl.declaredNames =
      decls.flatMap Decl.declaredNames := by
    simp only [List.flatMap_map, Decl.declaredNames_relabel keeps]
  have met := meets_tableOfDecls given
  have met' := meets_tableOfDecls given'
  rw [SymbolTable.Meets] at met met'
  rw [met', names, met]

end PlainC
