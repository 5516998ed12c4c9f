import PlainC.Proofs.Blocks.Points
import PlainC.Proofs.Declaring.Redefinition
import PlainC.Proofs.Regrouping.Groups

set_option autoImplicit false

/-!
Declarations of variables that are exchanged for others at one point of a program: at the top level,
in a struct, or in a block of a function. If the others are the same declarators in other groups,
the program is still well formed, and its check gives the same.
-/

namespace PlainC

open Checked

/-! ### Parts -/

/-- The parts of two things are the same, but for those at one point. -/
def Exchanged (here here' whole whole' : Parts) : Prop :=
  ∃ front behind, whole = front ++ (here ++ behind) ∧ whole' = front ++ (here' ++ behind)

namespace Exchanged

variable {here here' whole whole' : Parts}

theorem all (here here' : Parts) : Exchanged here here' here here' := ⟨[], [], by simp, by simp⟩

theorem behind (h : Exchanged here here' whole whole') (more : Parts) :
    Exchanged here here' (more ++ whole) (more ++ whole') := by
  obtain ⟨front, behind, rfl, rfl⟩ := h
  exact ⟨more ++ front, behind, by simp, by simp⟩

theorem before (h : Exchanged here here' whole whole') (more : Parts) :
    Exchanged here here' (whole ++ more) (whole' ++ more) := by
  obtain ⟨front, behind, rfl, rfl⟩ := h
  exact ⟨front, behind ++ more, by simp, by simp⟩

theorem gapless (h : Exchanged here here' whole whole') (complete : Gapless whole)
    (complete' : Gapless here') : Gapless whole' := by
  obtain ⟨front, behind, rfl, rfl⟩ := h
  rw [gapless_append, gapless_append] at complete ⊢
  exact ⟨complete.1, complete', complete.2.2⟩

end Exchanged

/-! ### Trees -/

/-- Declarations in front of the items of a block. -/
def Items.behind (decls : List VarDecl) (rest : Items) : Items := decls.foldr Items.decl rest

mutual

/-- In one block of a statement, declarations are exchanged for others. -/
inductive Stmt.Exchanges (decls decls' : List VarDecl) : Stmt → Stmt → Prop
  | block {opening items items' closing} : Items.Exchanges decls decls' items items' →
      Stmt.Exchanges decls decls' (.block opening items closing) (.block opening items' closing)
  | ifThen {word condition body body'} : Stmt.Exchanges decls decls' body body' →
      Stmt.Exchanges decls decls' (.ifThen word condition body) (.ifThen word condition body')
  | ifElse {word condition body body' elseWord otherwise} :
      Stmt.Exchanges decls decls' body body' →
      Stmt.Exchanges decls decls' (.ifElse word condition body elseWord otherwise)
        (.ifElse word condition body' elseWord otherwise)
  | otherwise {word condition body elseWord otherwise otherwise'} :
      Stmt.Exchanges decls decls' otherwise otherwise' →
      Stmt.Exchanges decls decls' (.ifElse word condition body elseWord otherwise)
        (.ifElse word condition body elseWord otherwise')
  | whileLoop {word condition body body'} : Stmt.Exchanges decls decls' body body' →
      Stmt.Exchanges decls decls' (.whileLoop word condition body) (.whileLoop word condition body')
  | forLoop {word header body body'} : Stmt.Exchanges decls decls' body body' →
      Stmt.Exchanges decls decls' (.forLoop word header body) (.forLoop word header body')

inductive Items.Exchanges (decls decls' : List VarDecl) : Items → Items → Prop
  | here {rest} : Items.Exchanges decls decls' (.behind decls rest) (.behind decls' rest)
  | decl {decl rest rest'} : Items.Exchanges decls decls' rest rest' →
      Items.Exchanges decls decls' (.decl decl rest) (.decl decl rest')
  | stmt {stmt rest rest'} : Items.Exchanges decls decls' rest rest' →
      Items.Exchanges decls decls' (.stmt stmt rest) (.stmt stmt rest')
  | inside {stmt stmt' rest} : Stmt.Exchanges decls decls' stmt stmt' →
      Items.Exchanges decls decls' (.stmt stmt rest) (.stmt stmt' rest)

end

/-- In a struct, or in one block of a function, declarations are exchanged for others. -/
inductive Decl.Exchanges (decls decls' : List VarDecl) : Decl → Decl → Prop
  | struct {word name opening before behind closing semicolon} :
      Exchanges decls decls'
        (.struct word name opening (before ++ (decls ++ behind)) closing semicolon)
        (.struct word name opening (before ++ (decls' ++ behind)) closing semicolon)
  | function {result name opening params closing left items items' right} :
      Items.Exchanges decls decls' items items' →
      Exchanges decls decls'
        (.function result name opening params closing (.found ⟨left, items, right⟩))
        (.function result name opening params closing (.found ⟨left, items', right⟩))

/-- The declaration at the top level, where the beginning of a function was tried up to the lexeme
behind the first name. -/
def VarDecl.topLevel (decl : VarDecl) : Decl := .vars ((lexemesOf decl.base.parts).length + 1) decl

/-- At one point of a program, declarations of variables are exchanged for others. -/
inductive Program.Exchanges (decls decls' : List VarDecl) : List Decl → List Decl → Prop
  | topLevel {before behind} : Exchanges decls decls'
      (before ++ (decls.map VarDecl.topLevel ++ behind))
      (before ++ (decls'.map VarDecl.topLevel ++ behind))
  | inside {before decl decl' behind} : decl.Exchanges decls decls' decl' →
      Exchanges decls decls' (before ++ decl :: behind) (before ++ decl' :: behind)

section

variable {decls decls' : List VarDecl}

/-! ### Points -/

mutual

/-- Where declarations are exchanged, there is a point, and the same items are behind them. -/
theorem Stmt.Exchanges.exists_point : ∀ {stmt stmt' : Stmt}, stmt.Exchanges decls decls' stmt' →
    ∃ (point : StmtPoint) (rest : Items), point.fill (.behind decls rest) = stmt ∧
      point.fill (.behind decls' rest) = stmt'
  | _, _, .block items => by
    obtain ⟨point, rest, rfl, rfl⟩ := Items.Exchanges.exists_point items
    exact ⟨.block _ point _, rest, rfl, rfl⟩
  | _, _, .ifThen body => by
    obtain ⟨point, rest, rfl, rfl⟩ := Stmt.Exchanges.exists_point body
    exact ⟨.ifThen _ _ point, rest, rfl, rfl⟩
  | _, _, .ifElse body => by
    obtain ⟨point, rest, rfl, rfl⟩ := Stmt.Exchanges.exists_point body
    exact ⟨.ifElse _ _ point _ _, rest, rfl, rfl⟩
  | _, _, .otherwise body => by
    obtain ⟨point, rest, rfl, rfl⟩ := Stmt.Exchanges.exists_point body
    exact ⟨.otherwise _ _ _ _ point, rest, rfl, rfl⟩
  | _, _, .whileLoop body => by
    obtain ⟨point, rest, rfl, rfl⟩ := Stmt.Exchanges.exists_point body
    exact ⟨.whileLoop _ _ point, rest, rfl, rfl⟩
  | _, _, .forLoop body => by
    obtain ⟨point, rest, rfl, rfl⟩ := Stmt.Exchanges.exists_point body
    exact ⟨.forLoop _ _ point, rest, rfl, rfl⟩

theorem Items.Exchanges.exists_point : ∀ {items items' : Items},
    items.Exchanges decls decls' items' →
      ∃ (point : ItemsPoint) (rest : Items), point.fill (.behind decls rest) = items ∧
        point.fill (.behind decls' rest) = items'
  | _, _, .here => ⟨.here, _, rfl, rfl⟩
  | _, _, .decl more => by
    obtain ⟨point, rest, rfl, rfl⟩ := Items.Exchanges.exists_point more
    exact ⟨.decl _ point, rest, rfl, rfl⟩
  | _, _, .stmt more => by
    obtain ⟨point, rest, rfl, rfl⟩ := Items.Exchanges.exists_point more
    exact ⟨.stmt _ point, rest, rfl, rfl⟩
  | _, _, .inside stmt => by
    obtain ⟨point, rest, rfl, rfl⟩ := Stmt.Exchanges.exists_point stmt
    exact ⟨.inside point _, rest, rfl, rfl⟩

end

/-! ### Lexemes -/

theorem Items.parts_behind (decls : List VarDecl) (rest : Items) :
    (behind decls rest).parts = decls.flatMap VarDecl.parts ++ rest.parts := by
  induction decls with
  | nil => rfl
  | cons decl decls ih =>
    rw [List.flatMap_cons, List.append_assoc, ← ih]
    rfl

theorem Items.Exchanges.parts {items items' : Items} (h : items.Exchanges decls decls' items') :
    Exchanged (decls.flatMap VarDecl.parts) (decls'.flatMap VarDecl.parts) items.parts
      items'.parts := by
  obtain ⟨point, rest, rfl, rfl⟩ := h.exists_point
  refine ⟨point.front, rest.parts ++ point.behind, ?_, ?_⟩
  · rw [ItemsPoint.parts_fill, Items.parts_behind, List.append_assoc]
  · rw [ItemsPoint.parts_fill, Items.parts_behind, List.append_assoc]

theorem Decl.Exchanges.parts {decl decl' : Decl} (h : decl.Exchanges decls decls' decl') :
    Exchanged (decls.flatMap VarDecl.parts) (decls'.flatMap VarDecl.parts) decl.parts
      decl'.parts := by
  cases h with
  | struct =>
    simp only [Decl.parts, List.flatMap_append]
    exact (((((Exchanged.all _ _).before _).behind _).behind _).before _).before _
  | function items => exact ((items.parts.behind _).before _).behind _

theorem VarDecl.flatMap_topLevel (decls : List VarDecl) :
    (decls.map topLevel).flatMap Decl.parts = decls.flatMap parts :=
  List.flatMap_map ..

theorem Program.Exchanges.parts {program program' : List Decl}
    (h : Exchanges decls decls' program program') :
    Exchanged (decls.flatMap VarDecl.parts) (decls'.flatMap VarDecl.parts)
      (program.flatMap Decl.parts) (program'.flatMap Decl.parts) := by
  cases h with
  | topLevel =>
    simp only [List.flatMap_append, VarDecl.flatMap_topLevel]
    exact ((Exchanged.all _ _).before _).behind _
  | inside decl =>
    simp only [List.flatMap_append, List.flatMap_cons]
    exact (decl.parts.before _).behind _

/-! ### Forms -/

theorem Items.formed_behind {rest : Items} :
    (behind decls rest).Formed ↔ (∀ decl ∈ decls, decl.Formed) ∧ rest.Formed := by
  induction decls with
  | nil => simp [behind]
  | cons decl decls ih =>
    rw [List.forall_mem_cons, and_assoc, ← ih]
    exact Iff.rfl

theorem Items.Exchanges.formed (regrouped : VarDecl.Regrouped decls decls') {items items' : Items}
    (h : items.Exchanges decls decls' items') : items.Formed → items'.Formed := by
  obtain ⟨point, rest, rfl, rfl⟩ := h.exists_point
  refine point.formed_fill fun formed => ?_
  rw [Items.formed_behind] at formed ⊢
  exact ⟨regrouped.formed formed.1, formed.2⟩

theorem Decl.Exchanges.formed (regrouped : VarDecl.Regrouped decls decls') {decl decl' : Decl}
    (h : decl.Exchanges decls decls' decl') (formed : decl.Formed) : decl'.Formed := by
  cases h with
  | struct =>
    simp only [Decl.Formed, List.forall_mem_append] at formed ⊢
    exact ⟨formed.1, regrouped.formed formed.2.1, formed.2.2⟩
  | function items =>
    refine ⟨formed.1, ?_⟩
    rintro _ ⟨⟩
    exact items.formed regrouped (formed.2 _ rfl)

theorem Program.Exchanges.formed (regrouped : VarDecl.Regrouped decls decls')
    {program program' : List Decl} (h : Exchanges decls decls' program program')
    (formed : ∀ decl ∈ program, decl.Formed) : ∀ decl ∈ program', decl.Formed := by
  cases h with
  | topLevel =>
    rw [List.forall_mem_append, List.forall_mem_append] at formed ⊢
    obtain ⟨before, here, behind⟩ := formed
    have vars : ∀ decl ∈ decls, decl.Formed :=
      fun decl among => (List.forall_mem_map.mp here decl among).1
    refine ⟨before, List.forall_mem_map.mpr fun decl among => ?_, behind⟩
    exact ⟨regrouped.formed vars decl among, fun _ => rfl⟩
  | inside decl =>
    rw [List.forall_mem_append, List.forall_mem_cons] at formed ⊢
    exact ⟨formed.1, decl.formed regrouped formed.2.1, formed.2.2⟩

/-! ### Checks -/

theorem Items.check_behind (decls : List VarDecl) (rest : Items) (scope : FunctionScope)
    (loops : Nat) (table : SymbolTable) : (behind decls rest).check scope loops table =
      decls.foldlM (VarDecl.declare (.body scope.depth)) table >>= rest.check scope loops := by
  induction decls generalizing table with
  | nil => rw [List.foldlM_nil, pure_bind, behind, List.foldr_nil]
  | cons decl decls ih =>
    rw [List.foldlM_cons, bind_assoc]
    exact bind_congr fun table => ih table

/-- From the same table, the check of items gives the same however their declarations are grouped. -/
theorem Items.Exchanges.gives (regrouped : VarDecl.Regrouped decls decls') {items items' : Items}
    (h : items.Exchanges decls decls' items') {scope : FunctionScope} {loops : Nat}
    {table table' : SymbolTable} (given : (items.check scope loops table).Gives table') :
    (items'.check scope loops table).Gives table' := by
  obtain ⟨point, rest, rfl, rfl⟩ := h.exists_point
  have turns : (Items.behind decls rest).TurnsInto none point.declaredNames (.behind decls' rest) := by
    intro scope loops table table' _ given
    rw [Items.check_behind] at given ⊢
    obtain ⟨middle, declared, checked⟩ := gives_bind.mp given
    exact gives_bind.mpr ⟨middle, regrouped.gives declared, checked⟩
  exact ItemsPoint.turns_body turns given

theorem Decl.Exchanges.gives (regrouped : VarDecl.Regrouped decls decls') {decl decl' : Decl}
    (h : decl.Exchanges decls decls' decl') {declared declared' : Declared}
    (given : (decl.check declared).Gives declared') : (decl'.check declared).Gives declared' := by
  cases h with
  | struct =>
    simp only [Decl.check, Declared.declareStruct] at given ⊢
    -- the name of the struct is taken, or the members are declared
    split at given
    · simp [redefined] at given
    · simp only [List.foldlM_append, gives_bind] at given ⊢
      obtain ⟨table, added, last, ⟨first, before, second, here, behind⟩, rest⟩ := given
      exact ⟨table, added, last, ⟨first, before, second, regrouped.gives here, behind⟩, rest⟩
  | function items =>
    simp only [Decl.check, Declared.declareFunction, Block.check, gives_bind, gives_require] at given ⊢
    obtain ⟨u, noted, ty, resolved, first, added, second, params, v, closed, _, ⟨⟩, last,
      ⟨table, checked, ended⟩, rest⟩ := given
    exact ⟨u, noted, ty, resolved, first, added, second, params, v, closed, _, rfl, last,
      ⟨table, items.gives regrouped checked, ended⟩, rest⟩

/-- In front of the declaration itself, the attempts at a struct and at a function change nothing. -/
theorem VarDecl.gives_topLevel {decl : VarDecl} {declared declared' : Declared} :
    (decl.topLevel.check declared).Gives declared' ↔
      ∃ table, (decl.declare .topLevel declared.table).Gives table ∧
        declared' = { declared with table } := by
  simp only [topLevel, Decl.check, gives_bind, gives_pure]
  constructor
  · rintro ⟨_, -, _, -, _, -, table, given, same⟩
    exact ⟨table, given, same⟩
  · rintro ⟨table, given, same⟩
    obtain ⟨base, resolved, -⟩ := gives_bind.mp given
    exact ⟨(), decl.base.gives_noteStruct, base, resolved, (), gives_noteFunction _ _, table, given,
      same⟩

theorem VarDecl.gives_foldlM_topLevel {declared declared' : Declared} :
    ((decls.map topLevel).foldlM Decl.check declared).Gives declared' ↔
      ∃ table, (decls.foldlM (declare .topLevel) declared.table).Gives table ∧
        declared' = { declared with table } := by
  induction decls generalizing declared with
  | nil => simp
  | cons decl decls ih =>
    simp only [List.map_cons, List.foldlM_cons, gives_bind, gives_topLevel, ih]
    constructor
    · rintro ⟨_, ⟨middle, first, rfl⟩, table, rest, same⟩
      exact ⟨table, ⟨middle, first, rest⟩, same⟩
    · rintro ⟨table, ⟨middle, first, rest⟩, same⟩
      exact ⟨_, ⟨middle, first, rfl⟩, table, rest, same⟩

/-- Where declarations of variables are regrouped, all declarations together declare the same. -/
theorem Program.Exchanges.gives (regrouped : VarDecl.Regrouped decls decls')
    {program program' : List Decl} (h : Exchanges decls decls' program program')
    {table : SymbolTable} (given : (Program.tableOfDecls program).Gives table) :
    (Program.tableOfDecls program').Gives table := by
  simp only [Program.tableOfDecls, gives_bind] at given ⊢
  obtain ⟨declared, given, same⟩ := given
  refine ⟨declared, ?_, same⟩
  cases h with
  | topLevel =>
    simp only [List.foldlM_append, gives_bind, VarDecl.gives_foldlM_topLevel] at given ⊢
    obtain ⟨first, before, _, ⟨table, here, rfl⟩, behind⟩ := given
    exact ⟨first, before, _, ⟨table, regrouped.gives here, rfl⟩, behind⟩
  | inside decl =>
    simp only [List.foldlM_append, List.foldlM_cons, gives_bind] at given ⊢
    obtain ⟨first, before, second, checked, behind⟩ := given
    exact ⟨first, before, second, decl.gives regrouped checked, behind⟩

end

end PlainC
