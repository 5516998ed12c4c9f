import PlainC.Proofs.Declaring.Names
import PlainC.Proofs.Table.Changing

set_option autoImplicit false

/-!
The variables of a function: what a statement declares in any of its blocks is put behind everything
else at the one depth of the function, under names that are new there. So it is found under its name
from then on, and no name is declared twice.
-/

namespace PlainC

open Checked
open SymbolTable (Fresh)

namespace SymbolTable

variable {table table' table'' : SymbolTable} {depth : Nat} {names names' : List String}

/-- Behind the symbols of the first table stand those of variables with the names in order, each of
which was new at the depth. -/
inductive AddsLocals (depth : Nat) (table : SymbolTable) : List String → SymbolTable → Prop
  | refl : AddsLocals depth table [] table
  | snoc {names : List String} {table' table'' : SymbolTable} {symbol : Symbol} :
      AddsLocals depth table names table' → symbol.cls = .var → symbol.depth = depth →
      Fresh table'.symbols symbol → table''.symbols = table'.symbols ++ [symbol] →
      AddsLocals depth table (names ++ [symbol.name]) table''

/-- The names are those of variables of the function with a depth, which are found under them. -/
def Holds (table : SymbolTable) (depth : Nat) (names : List String) : Prop :=
  ∃ start : SymbolTable, start.AddsLocals depth names table

/-- What is found under the name is a variable of the function with a depth. -/
def FindsLocal (table : SymbolTable) (depth : Nat) (name : String) : Prop :=
  ∃ symbol, table.find? name = some symbol ∧ symbol.cls = .var ∧ symbol.depth = depth

namespace AddsLocals

theorem trans (first : table.AddsLocals depth names table')
    (next : table'.AddsLocals depth names' table'') :
    table.AddsLocals depth (names ++ names') table'' := by
  induction next with
  | refl => rwa [List.append_nil]
  | snoc _ isVar inFunction fresh added ih =>
    rw [← List.append_assoc]
    exact .snoc ih isVar inFunction fresh added

/-- A symbol that is put last hides no other name. -/
theorem findsLocal (h : table.AddsLocals depth names table') {name : String} (mem : name ∈ names) :
    table'.FindsLocal depth name := by
  induction h with
  | refl => cases mem
  | @snoc names middle last symbol _ isVar inFunction _ added ih =>
    by_cases same : symbol.name = name
    · refine ⟨symbol, find?_iff.mpr ?_, isVar, inFunction⟩
      exact ⟨_, middle.symbols, [], added, rfl, same, nofun⟩
    · have earlier : name ∈ names := by
        rcases List.mem_append.mp mem with earlier | isLast
        · exact earlier
        · exact absurd (List.mem_singleton.mp isLast).symm same
      obtain ⟨other, found, isVar', inFunction'⟩ := ih earlier
      obtain ⟨index, before, behind, symbols, length, named, others⟩ := find?_iff.mp found
      refine ⟨other, find?_iff.mpr ?_, isVar', inFunction'⟩
      refine ⟨index, before, behind ++ [symbol], ?_, length, named, ?_⟩
      · rw [added, symbols, List.append_assoc, List.cons_append]
      · simpa [or_imp, forall_and, same] using others

theorem nodup (h : table.AddsLocals depth names table') : names.Nodup := by
  induction h with
  | refl => exact .nil
  | @snoc names middle last symbol before _ inFunction fresh _ ih =>
    refine List.nodup_append.mpr ⟨ih, List.pairwise_singleton .., ?_⟩
    rintro name mem _ isLast rfl
    obtain ⟨other, found, -, inFunction'⟩ := before.findsLocal mem
    obtain ⟨_, _, _, symbols, -, named, -⟩ := find?_iff.mp found
    refine fresh other (by simp [symbols]) ⟨?_, inFunction'.trans inFunction.symm⟩
    exact named.trans (List.mem_singleton.mp isLast)

end AddsLocals

namespace Holds

theorem nil (table : SymbolTable) (depth : Nat) : table.Holds depth [] := ⟨table, .refl⟩

theorem adds (h : table.Holds depth names) (next : table.AddsLocals depth names' table') :
    table'.Holds depth (names ++ names') := by
  obtain ⟨start, first⟩ := h
  exact ⟨start, first.trans next⟩

theorem findsLocal (h : table.Holds depth names) {name : String} (mem : name ∈ names) :
    table.FindsLocal depth name := by
  obtain ⟨start, first⟩ := h
  exact first.findsLocal mem

end Holds

/-- A name that is held is taken. -/
theorem FindsLocal.declare_eq {name : Name} {symbol : Symbol} (named : symbol.name = name.value)
    (h : table.FindsLocal symbol.depth name.value) :
    ∃ line, table.declare name symbol = Checked.redefined name line := by
  obtain ⟨other, found, -, inFunction⟩ := h
  obtain ⟨_, _, _, symbols, -, same, -⟩ := find?_iff.mp found
  rw [SymbolTable.declare_eq]
  cases free : table.findAtDepth? symbol.name symbol.depth with
  | some previous => exact ⟨previous.line, rfl⟩
  | none =>
    refine absurd ?_ (findAtDepth?_eq_none_iff.mp free other (by simp [symbols]))
    exact ⟨same.trans named.symm, inFunction⟩

end SymbolTable

open SymbolTable (AddsLocals)

variable {table table' : SymbolTable}

/-! ### Declarations and statements -/

theorem Declarator.addsLocals {depth : Nat} {base : Base} {declarator : Declarator}
    (h : (declarator.declare (.body depth) base table).Gives table') :
    table.AddsLocals depth declarator.name.declaredNames table' := by
  obtain ⟨name, ty, named, -, declared⟩ := Declarator.gives_declare.mp h
  obtain ⟨fresh, added⟩ := Region.symbols_declare declared
  rw [named]
  exact .snoc .refl rfl rfl fresh added

theorem VarDecl.addsLocals {depth : Nat} {decl : VarDecl}
    (h : (decl.declare (.body depth) table).Gives table') :
    table.AddsLocals depth decl.declaredNames table' := by
  simp only [VarDecl.declare, gives_bind, gives_pure] at h
  obtain ⟨base, -, _, declared, _, -, rfl⟩ := h
  refine gives_foldlM_induction (motive := fun declarators table table' => table.AddsLocals depth
    (declarators.flatMap fun declarator => declarator.name.declaredNames) table') (fun _ => .refl)
    ?_ declared
  intro _ _ _ _ _ first rest
  exact (Declarator.addsLocals first).trans rest

theorem VarDecl.addsLocals_foldlM {depth : Nat} {decls : List VarDecl}
    (h : (decls.foldlM (declare (.body depth)) table).Gives table') :
    table.AddsLocals depth (decls.flatMap VarDecl.declaredNames) table' := by
  refine gives_foldlM_induction (motive := fun decls table table' =>
    table.AddsLocals depth (decls.flatMap VarDecl.declaredNames) table') (fun _ => .refl) ?_ h
  intro _ _ _ _ _ first rest
  exact (VarDecl.addsLocals first).trans rest

theorem Stmt.addsLocals {scope : FunctionScope} {stmt : Stmt} {loops : Nat}
    (h : (stmt.check scope loops table).Gives table') :
    table.AddsLocals scope.depth stmt.declaredNames table' := by
  rw [stmt.declaredNames_eq]
  exact VarDecl.addsLocals_foldlM (Stmt.gives_varDecls h)

theorem Items.addsLocals {scope : FunctionScope} {items : Items} {loops : Nat}
    (h : (items.check scope loops table).Gives table') :
    table.AddsLocals scope.depth items.declaredNames table' := by
  rw [items.declaredNames_eq]
  exact VarDecl.addsLocals_foldlM (Items.gives_varDecls h)

end PlainC
