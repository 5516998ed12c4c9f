import PlainC.Proofs.Declaring.Judgement
import PlainC.Proofs.Syntax.Formed
import PlainC.Proofs.Table.Lookup
import PlainC.Proofs.Typing.Rules

set_option autoImplicit false

/-!
Declarations of variables in other groups: the same declarators in the same order, each behind the
same base type, whether they share a declaration or not. What they declare is the same, as no
variable changes what a base type means.
-/

namespace PlainC

open Checked

/-! ### Base types -/

/-- A test that does not see a change finds the same before and after it. -/
theorem lastIndex?_modify {α : Type} {test : α → Bool} {change : α → α}
    (unseen : ∀ a, test (change a) = test a) (as : List α) (i : Nat) :
    lastIndex? test (as.modify i change) = lastIndex? test as := by
  induction as generalizing i with
  | nil => rw [List.modify_nil]
  | cons a as ih =>
    cases i with
    | zero => simp [lastIndex?, unseen]
    | succ i => simp [lastIndex?, ih]

/-- No variable and no member is a struct. -/
theorem Region.findStruct?_declare {region : Region} {table table' : SymbolTable} {name : Name}
    {ty : Ty} (h : (region.declare table name ty).Gives table') (struct : String) :
    table'.findStruct? struct = table.findStruct? struct := by
  have changed := Region.symbols_declare h
  unfold SymbolTable.findStruct?
  cases region with
  | topLevel | body =>
    rw [changed.2, lastIndex?_append, lastIndex?_of_none]
    · rfl
    · simp [variableSymbol]
  | members =>
    rw [changed, lastIndex?_modify]
    simp

namespace BaseName

variable {base other : BaseName}

/-- Both base types are written with the same tokens. -/
def SameAs (base other : BaseName) : Prop :=
  (lexemesOf base.parts).map At.value = (lexemesOf other.parts).map At.value

theorem SameAs.symm (same : base.SameAs other) : other.SameAs base := Eq.symm same

/-- What a base type means is read off its tokens. -/
theorem SameAs.denotes (same : base.SameAs other) {table : SymbolTable} {meant : Base}
    (denotes : base.Denotes table meant) : other.Denotes table meant := by
  cases denotes with
  | int | double | char =>
    cases other with
    | int | double | char => first | constructor | simp [SameAs, parts] at same
    | struct word slot => cases slot <;> simp [SameAs, parts] at same
  | @struct word name index symbol latest =>
    cases other with
    | int | double | char => simp [SameAs, parts] at same
    | struct word' slot =>
      cases slot with
      | missing => simp [SameAs, parts] at same
      | found name' =>
        have named : name.value = name'.value := by simpa [SameAs, parts] using same
        rw [named] at latest
        exact .struct latest

theorem resolve_eq {table table' : SymbolTable}
    (same : ∀ struct, table'.findStruct? struct = table.findStruct? struct) (base : BaseName) :
    base.resolve table' = base.resolve table := by
  cases base <;> simp only [resolve, same]

end BaseName

/-! ### Lexemes -/

theorem forall_lexemesOf_flatMap {α : Type} {view : α → Parts} {items : List α}
    {P : Lexeme → Prop} : (∀ lexeme ∈ lexemesOf (items.flatMap view), P lexeme) ↔
      ∀ item ∈ items, ∀ lexeme ∈ lexemesOf (view item), P lexeme := by
  induction items with
  | nil => simp
  | cons item items ih =>
    simp only [List.flatMap_cons, lexemesOf_append, List.forall_mem_append, List.forall_mem_cons, ih]

theorem Separated.forall_lexemesOf {α : Type} {view : α → Parts} {items : Separated α}
    {P : Lexeme → Prop} (comma : ∀ place, P ⟨.delimiter .comma, place⟩) :
    (∀ lexeme ∈ lexemesOf (items.parts view), P lexeme) ↔
      ∀ item ∈ items.toList, ∀ lexeme ∈ lexemesOf (view item), P lexeme := by
  obtain ⟨first, rest⟩ := items
  simp only [parts, toList, lexemesOf_append, List.forall_mem_append, List.forall_mem_cons]
  refine and_congr_right fun _ => ?_
  induction rest with
  | nil => simp [restParts]
  | cons pair rest ih =>
    simp only [restParts, lexemesOf_append, List.forall_mem_append, List.map_cons,
      List.forall_mem_cons, ih]
    simp [comma]

/-- Nothing but its declarators could bring the end of input into a declaration. -/
theorem VarDecl.noEnd_iff {decl : VarDecl} :
    (∀ lexeme ∈ lexemesOf decl.parts, lexeme.value ≠ .endOfInput) ↔
      ∀ declarator ∈ decl.declarators.toList,
        ∀ lexeme ∈ lexemesOf declarator.parts, lexeme.value ≠ .endOfInput := by
  have base : ∀ lexeme ∈ lexemesOf decl.base.parts, lexeme.value ≠ .endOfInput := by
    cases decl.base with
    | int | double | char => simp [BaseName.parts]
    | struct word name => cases name <;> simp [BaseName.parts]
  have semicolon : ∀ lexeme ∈ lexemesOf (decl.semicolon.parts Delimiter.semicolon.part),
      lexeme.value ≠ .endOfInput := by
    cases decl.semicolon <;> simp
  rw [parts, lexemesOf_append, lexemesOf_append, List.forall_mem_append, List.forall_mem_append,
    and_iff_left semicolon, and_iff_right base, Separated.forall_lexemesOf]
  exact fun _ => nofun

/-! ### Declarators -/

namespace VarDecl

/-- Declares one variable, behind a base type of its own. -/
def declareOne (region : Region) (table : SymbolTable) (one : BaseName × Declarator) :
    Checked SymbolTable := do
  one.2.declare region (← one.1.resolve table) table

variable {region : Region} {table table' : SymbolTable}

/-- The base type stays what it is while the table grows. -/
theorem gives_declarators {name : BaseName} {base : Base} {declarators : List Declarator}
    (resolved : (name.resolve table).Gives base) :
    (declarators.foldlM (Declarator.declare region base) table).Gives table' ↔
      ((declarators.map fun declarator => (name, declarator)).foldlM (declareOne region)
        table).Gives table' := by
  induction declarators generalizing table with
  | nil => exact Iff.rfl
  | cons declarator declarators ih =>
    have one (middle : SymbolTable) : (declareOne region table (name, declarator)).Gives middle ↔
        (declarator.declare region base table).Gives middle := by
      rw [Gives, declareOne, result_bind_of_gives resolved, Gives]
    simp only [List.map_cons, List.foldlM_cons, gives_bind, one]
    refine exists_congr fun middle => and_congr_right fun declared => ih ?_
    obtain ⟨_, _, -, -, added⟩ := Declarator.gives_declare.mp declared
    rwa [name.resolve_eq (Region.findStruct?_declare added)]

/-- A declaration declares its variables one by one. -/
theorem gives_declare_iff {decl : VarDecl} : (decl.declare region table).Gives table' ↔
    (decl.withBase.foldlM (declareOne region) table).Gives table' ∧
      ∃ place, decl.semicolon = .found place := by
  simp only [declare, gives_bind, gives_pure, gives_requireMark]
  constructor
  · rintro ⟨base, resolved, _, declared, _, closed, rfl⟩
    exact ⟨(gives_declarators resolved).mp declared, closed⟩
  · rintro ⟨declared, closed⟩
    -- there is at least one variable, so the base type has a meaning
    obtain ⟨base, resolved⟩ : ∃ base, (decl.base.resolve table).Gives base := by
      rw [withBase, Separated.toList, List.map_cons, List.foldlM_cons, gives_bind] at declared
      obtain ⟨_, first, -⟩ := declared
      obtain ⟨base, resolved, -⟩ := gives_bind.mp first
      exact ⟨base, resolved⟩
    exact ⟨base, resolved, _, (gives_declarators resolved).mpr declared, (), closed, rfl⟩

theorem gives_foldlM_declare {decls : List VarDecl} :
    (decls.foldlM (declare region) table).Gives table' ↔
      ((decls.flatMap withBase).foldlM (declareOne region) table).Gives table' ∧
        ∀ decl ∈ decls, ∃ place, decl.semicolon = .found place := by
  induction decls generalizing table with
  | nil => simp
  | cons decl decls ih =>
    simp only [List.foldlM_cons, List.flatMap_cons, List.foldlM_append, gives_bind, ih,
      gives_declare_iff, List.forall_mem_cons]
    constructor
    · rintro ⟨middle, ⟨first, closed⟩, rest, others⟩
      exact ⟨⟨middle, first, rest⟩, closed, others⟩
    · rintro ⟨⟨middle, first, rest⟩, closed, others⟩
      exact ⟨middle, ⟨first, closed⟩, rest, others⟩

theorem closed_of_gapless {decl : VarDecl} (gapless : Gapless decl.parts) :
    ∃ place, decl.semicolon = .found place := by
  obtain ⟨base, declarators, semicolon⟩ := decl
  cases semicolon with
  | found place => exact ⟨place, rfl⟩
  | missing => simp [parts] at gapless

/-! ### Groups -/

/-- The second declarations have the declarators of the first ones, in the same order and each behind
the same base type, in whatever groups, and nothing is missing in them. -/
structure Regrouped (decls decls' : List VarDecl) : Prop where
  same : List.Forall₂ (fun one other => one.1.SameAs other.1 ∧ one.2 = other.2)
    (decls.flatMap withBase) (decls'.flatMap withBase)
  complete : Gapless (decls'.flatMap parts)

namespace Regrouped

/-- A declaration can be split between its declarators. -/
theorem split {decl : VarDecl} {decls : List VarDecl}
    (bases : ∀ part ∈ decls, decl.base.SameAs part.base)
    (declarators : (decls.flatMap fun part => part.declarators.toList) = decl.declarators.toList)
    (complete : Gapless (decls.flatMap parts)) : Regrouped [decl] decls := by
  refine ⟨?_, complete⟩
  rw [List.flatMap_singleton, withBase, ← declarators, List.map_flatMap]
  clear declarators complete
  induction decls with
  | nil => exact .nil
  | cons part decls ih =>
    obtain ⟨base, others⟩ := List.forall_mem_cons.mp bases
    refine List.rel_append ?_ (ih others)
    rw [withBase, List.forall₂_map_left_iff, List.forall₂_map_right_iff, List.forall₂_same]
    exact fun _ _ => ⟨base, rfl⟩

variable {decls decls' : List VarDecl}

theorem symm (h : Regrouped decls decls') (complete : Gapless (decls.flatMap parts)) :
    Regrouped decls' decls :=
  ⟨h.same.flip.imp fun _ _ same => ⟨same.1.symm, same.2.symm⟩, complete⟩

/-- Declarations with the same base type can be joined. -/
theorem join {decl : VarDecl} (bases : ∀ part ∈ decls, decl.base.SameAs part.base)
    (declarators : (decls.flatMap fun part => part.declarators.toList) = decl.declarators.toList)
    (gapless : Gapless (decls.flatMap parts)) (complete : Gapless decl.parts) :
    Regrouped decls [decl] :=
  (split bases declarators gapless).symm (by simpa using complete)

/-- The same is declared, whatever the groups are. -/
theorem gives (h : Regrouped decls decls')
    (given : (decls.foldlM (declare region) table).Gives table') :
    (decls'.foldlM (declare region) table).Gives table' := by
  rw [gives_foldlM_declare] at given ⊢
  refine ⟨?_, fun decl among => closed_of_gapless (gapless_of_mem h.complete among)⟩
  obtain ⟨declared, -⟩ := given
  have same := h.same
  generalize decls.flatMap withBase = ones at same declared
  generalize decls'.flatMap withBase = others at same
  induction same generalizing table with
  | nil => exact declared
  | @cons one other _ _ first _ ih =>
    simp only [List.foldlM_cons, gives_bind, declareOne, BaseName.gives_resolve] at declared ⊢
    obtain ⟨middle, ⟨base, denotes, added⟩, rest⟩ := declared
    exact ⟨middle, ⟨base, first.1.denotes denotes, first.2 ▸ added⟩, ih rest⟩

theorem exists_mem (h : Regrouped decls decls') {decl' : VarDecl} {declarator : Declarator}
    (among : decl' ∈ decls') (inside : declarator ∈ decl'.declarators.toList) :
    ∃ decl ∈ decls, declarator ∈ decl.declarators.toList := by
  have one : (decl'.base, declarator) ∈ decls'.flatMap withBase :=
    List.mem_flatMap.mpr ⟨decl', among, List.mem_map_of_mem inside⟩
  obtain ⟨other, paired, -, same⟩ := exists_of_mem_right h.same one
  obtain ⟨decl, mem, inDecl⟩ := List.mem_flatMap.mp paired
  obtain ⟨original, inList, rfl⟩ := List.mem_map.mp inDecl
  obtain rfl : original = declarator := same
  exact ⟨decl, mem, inList⟩

theorem formed (h : Regrouped decls decls') (formed : ∀ decl ∈ decls, decl.Formed) :
    ∀ decl ∈ decls', decl.Formed := by
  intro decl' among declarator inside
  obtain ⟨decl, mem, inDecl⟩ := h.exists_mem among inside
  exact formed decl mem declarator inDecl

/-- Nothing but declarators could bring in the end of input. -/
theorem noEnd (h : Regrouped decls decls')
    (noEnd : ∀ lexeme ∈ lexemesOf (decls.flatMap parts), lexeme.value ≠ .endOfInput) :
    ∀ lexeme ∈ lexemesOf (decls'.flatMap parts), lexeme.value ≠ .endOfInput := by
  rw [forall_lexemesOf_flatMap] at noEnd ⊢
  intro decl' among
  rw [noEnd_iff]
  intro declarator inside
  obtain ⟨decl, mem, inDecl⟩ := h.exists_mem among inside
  exact noEnd_iff.mp (noEnd decl mem) declarator inDecl

end Regrouped

end VarDecl

end PlainC
