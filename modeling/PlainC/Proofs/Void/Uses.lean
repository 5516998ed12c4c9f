import Mathlib.Data.List.Basic
import PlainC.Proofs.Checking.Gives
import PlainC.Proofs.Declaring.Variables
import PlainC.Proofs.Void.Tables

set_option autoImplicit false

/-!
Void values are not used. Every expression of an accepted program stands in a statement or in an
initializer, where it is checked with the table of its place; only where its value is left can it be
void, and then it is a call, perhaps in parentheses.
-/

namespace PlainC

open Checked PlainC.Expr

/-- What an expression that is not part of another one stands for: a statement, a part of the header
of a `for`, a condition, what a function gives back, or what a variable or an element of an array is
initialized with. -/
inductive Use where
  | statement | first | condition | step | returned | initializer | element
  deriving DecidableEq, Repr

/-- Nothing is done with the value. -/
def Use.IsUnused (use : Use) : Prop := use ∈ [statement, first, step]

instance (use : Use) : Decidable use.IsUnused := by
  unfold Use.IsUnused
  infer_instance

/-- An expression that is not part of another one, with the table where it stands. -/
structure Root where
  use : Use
  table : SymbolTable
  expr : Expr

def Root.standing (table : SymbolTable) (use : Use × Expr) : Root := ⟨use.1, table, use.2⟩

/-- What is written there. -/
def Root.written (root : Root) : Use × Expr := (root.use, root.expr)

theorem Root.map_written (table : SymbolTable) (uses : List (Use × Expr)) :
    (uses.map (standing table)).map written = uses := by
  rw [List.map_map]
  exact List.map_id uses

/-! ### Trees -/

def Args.toList : Args → List Expr
  | .last arg => [arg]
  | .more arg _ rest => arg :: rest.toList

def Initializer.uses : Initializer → List (Use × Expr)
  | value expr => [(.initializer, expr)]
  | elements _ args _ => args.toList.map (.element, ·)
  | noElements _ _ => []

def Declarator.uses (declarator : Declarator) : List (Use × Expr) :=
  declarator.initializer.toList.flatMap fun init => init.2.uses

def VarDecl.uses (decl : VarDecl) : List (Use × Expr) :=
  decl.declarators.toList.flatMap Declarator.uses

def ForHeader.uses (header : ForHeader) : List (Use × Expr) :=
  header.first.toList.map (.first, ·) ++ header.condition.toList.map (.condition, ·) ++
    header.step.toList.map (.step, ·)

/-- The expressions in a statement that are in no statement in it. -/
def Stmt.uses : Stmt → List (Use × Expr)
  | .ifThen _ condition _ | .ifElse _ condition _ _ _ | .whileLoop _ condition _ =>
    [(.condition, condition.expr)]
  | .forLoop _ header _ => header.uses
  | .returnValue _ value _ => value.toList.map (.returned, ·)
  | .expr value _ => [(.statement, value)]
  | .block _ _ _ | .breakLoop _ _ | .empty _ | .missing _ => []

def Item.uses : Item → List (Use × Expr)
  | decl varDecl => varDecl.uses
  | stmt statement => statement.uses

def Item.Formed : Item → Prop
  | decl varDecl => varDecl.Formed
  | stmt statement => statement.Formed

/-! ### Visits -/

/-- The expressions in declarators; one declarator is declared behind the other. -/
def Declarator.roots (region : Region) (base : Base) (table : SymbolTable) :
    List Declarator → List Root
  | [] => []
  | declarator :: declarators =>
    declarator.uses.map (.standing table) ++
      (declarator.declare region base table).behind fun table =>
        Declarator.roots region base table declarators

def VarDecl.roots (region : Region) (table : SymbolTable) (decl : VarDecl) : List Root :=
  (decl.base.resolve table).behind fun base =>
    Declarator.roots region base table decl.declarators.toList

def Visit.roots : Visit → List Root
  | decl region _ table varDecl => varDecl.roots region table
  | stmt _ _ table statement => statement.uses.map (.standing table)

/-- The expressions that the analysis of tokens comes to, without those that are in another one. -/
def Program.roots (tokens : List Token) : List Root := (visits tokens).flatMap Visit.roots

/-! ### Formed -/

mutual

theorem Expr.formed_inside : ∀ (expr : Expr), expr.Formed → ∀ part ∈ expr.inside, part.Formed
  | .literal _ _, formed | .reference _, formed | .callEmpty _ _ _, formed | .missing _, formed =>
    List.forall_mem_singleton.mpr formed
  | .call _ _ args _, formed =>
    List.forall_mem_cons.mpr ⟨formed, Args.formed_inside args formed⟩
  | .paren _ inner _, formed =>
    List.forall_mem_cons.mpr ⟨formed, Expr.formed_inside inner formed⟩
  | .element array _ index _, formed =>
    List.forall_mem_cons.mpr ⟨formed, List.forall_mem_append.mpr
      ⟨Expr.formed_inside array formed.1, Expr.formed_inside index formed.2.2⟩⟩
  | .member record _ _, formed =>
    List.forall_mem_cons.mpr ⟨formed, Expr.formed_inside record formed.1⟩
  | .unary _ operand, formed | .cast _ _ _ operand, formed =>
    List.forall_mem_cons.mpr ⟨formed, Expr.formed_inside operand formed.2.1⟩
  | .binary _ left right, formed =>
    List.forall_mem_cons.mpr ⟨formed, List.forall_mem_append.mpr
      ⟨Expr.formed_inside left formed.2.1, Expr.formed_inside right formed.2.2.2.1⟩⟩
  | .assign target _ value, formed =>
    List.forall_mem_cons.mpr ⟨formed, List.forall_mem_append.mpr
      ⟨Expr.formed_inside target formed.1, Expr.formed_inside value formed.2.2⟩⟩

theorem Args.formed_inside : ∀ (args : Args), args.Formed → ∀ part ∈ args.inside, part.Formed
  | .last arg, formed => Expr.formed_inside arg formed
  | .more arg _ rest, formed =>
    List.forall_mem_append.mpr ⟨Expr.formed_inside arg formed.1, Args.formed_inside rest formed.2⟩

end

/-! ### What is checked -/

/-- The expression is checked, with a table in which only functions are void, and it is not void if
anything is done with its value. -/
structure Root.Sound (root : Root) : Prop where
  valued : root.table.Valued
  formed : root.expr.Formed
  typed : ∃ ty assignable, root.expr.HasType root.table ty assignable ∧
    (ty.isVoid = true → root.use.IsUnused)

section

variable {table table' : SymbolTable} {expr : Expr}

/-- What is checked because a value of it is wanted. -/
theorem Root.sound_of_value {operand : Operand} (use : Use) (valued : table.Valued)
    (formed : expr.Formed) (given : (expr.type table).Gives operand)
    (value : operand.ty.VoidAlone → operand.ty.isVoid = false) :
    (Root.standing table (use, expr)).Sound := by
  obtain ⟨ty, assignable⟩ := operand
  have typed := (expr.gives_type table formed).mp given
  refine ⟨valued, formed, ty, assignable, typed, fun void => ?_⟩
  exact absurd ((value (Expr.proper valued typed).alone).symm.trans void) nofun

theorem Root.sound_of_unused {use : Use} (valued : table.Valued) (formed : expr.Formed)
    (given : (expr.checkUnused table).Gives ()) (unused : use.IsUnused) :
    (Root.standing table (use, expr)).Sound := by
  obtain ⟨⟨ty, assignable⟩, given⟩ := gives_checkUnused.mp given
  exact ⟨valued, formed, ty, assignable, (expr.gives_type table formed).mp given, fun _ => unused⟩

theorem Root.sound_of_tested (use : Use) (valued : table.Valued) (formed : expr.Formed)
    (given : (expr.checkTested table).Gives ()) : (Root.standing table (use, expr)).Sound := by
  obtain ⟨operand, given, -, value⟩ := gives_checkTested.mp given
  exact sound_of_value use valued formed given fun _ => value

/-- What converts to something is not void. -/
theorem Root.sound_of_accepts {operand : Operand} {ty : Ty} (use : Use) (valued : table.Valued)
    (formed : expr.Formed) (given : (expr.type table).Gives operand)
    (accepts : ty.accepts operand.ty = true) : (Root.standing table (use, expr)).Sound :=
  sound_of_value use valued formed given (Ty.isVoid_source accepts)

theorem Initializer.sound_elements {element : Ty} {args : Args} (valued : table.Valued)
    (formed : args.Formed) (given : (checkElements table element args).Gives ()) :
    ∀ root ∈ (args.toList.map (Use.element, ·)).map (Root.standing table), root.Sound := by
  cases args with
  | last expr =>
    obtain ⟨_, _, typed, accepts⟩ := (gives_checkElement formed).mp given
    have given := (expr.gives_type table formed).mpr typed
    exact List.forall_mem_singleton.mpr (Root.sound_of_accepts _ valued formed given accepts)
  | more expr comma rest =>
    simp only [checkElements, gives_bind] at given
    obtain ⟨_, checked, others⟩ := given
    obtain ⟨_, _, typed, accepts⟩ := (gives_checkElement formed.1).mp checked
    have given := (expr.gives_type table formed.1).mpr typed
    refine List.forall_mem_cons.mpr ⟨?_, sound_elements valued formed.2 others⟩
    exact Root.sound_of_accepts _ valued formed.1 given accepts

theorem Initializer.sound_uses {ty ty' : Ty} {init : Initializer} (valued : table.Valued)
    (formed : init.Formed) (given : (init.type table ty).Gives ty') :
    ∀ root ∈ init.uses.map (Root.standing table), root.Sound := by
  cases init with
  | noElements opening closing => exact List.forall_mem_nil _
  | elements opening args closing =>
    simp only [Initializer.type, gives_bind] at given
    obtain ⟨_, -, _, elements, -⟩ := given
    exact sound_elements valued formed elements
  | value expr =>
    simp only [Initializer.type, gives_bind] at given
    obtain ⟨operand, given, checked⟩ := given
    have accepts : ty.accepts operand.ty = true := by
      cases accepts : ty.accepts operand.ty with
      | true => rfl
      | false => simp [accepts] at checked
    exact List.forall_mem_singleton.mpr (Root.sound_of_accepts _ valued formed given accepts)

theorem Stmt.sound_uses {scope : FunctionScope} {loops : Nat} {stmt : Stmt} (valued : table.Valued)
    (formed : stmt.Formed) (given : (stmt.check scope loops table).Gives table') :
    ∀ root ∈ stmt.uses.map (Root.standing table), root.Sound := by
  cases stmt with
  | ifThen word condition body =>
    simp only [Stmt.check, gives_bind] at given
    obtain ⟨_, passed, -⟩ := given
    refine List.forall_mem_singleton.mpr ?_
    exact Root.sound_of_tested _ valued formed.1 (Condition.tested_of_check passed)
  | ifElse word condition body elseWord otherwise =>
    simp only [Stmt.check, gives_bind] at given
    obtain ⟨_, passed, -⟩ := given
    refine List.forall_mem_singleton.mpr ?_
    exact Root.sound_of_tested _ valued formed.1 (Condition.tested_of_check passed)
  | whileLoop word condition body =>
    simp only [Stmt.check, gives_bind] at given
    obtain ⟨_, passed, -⟩ := given
    refine List.forall_mem_singleton.mpr ?_
    exact Root.sound_of_tested _ valued formed.1 (Condition.tested_of_check passed)
  | forLoop word header body =>
    simp only [Stmt.check, gives_bind] at given
    obtain ⟨_, passed, -⟩ := given
    obtain ⟨first, condition, step⟩ := ForHeader.passes_of_check passed
    obtain ⟨formedFirst, formedCondition, formedStep⟩ := formed.1
    simp only [Stmt.uses, ForHeader.uses, List.map_append, List.map_map, List.forall_mem_append,
      List.forall_mem_map, Option.mem_toList]
    refine ⟨⟨fun expr among => ?_, fun expr among => ?_⟩, fun expr among => ?_⟩
    · exact Root.sound_of_unused valued (formedFirst expr among) (first expr among) (by decide)
    · exact Root.sound_of_tested _ valued (formedCondition expr among) (condition expr among)
    · exact Root.sound_of_unused valued (formedStep expr among) (step expr among) (by decide)
  | returnValue word value semicolon =>
    simp only [Stmt.check, gives_bind] at given
    obtain ⟨_, passed, -⟩ := given
    cases value with
    | none => exact List.forall_mem_nil _
    | some expr =>
      obtain ⟨-, operand, given, accepts⟩ := FunctionScope.gives_checkReturn_some.mp passed
      refine List.forall_mem_singleton.mpr ?_
      exact Root.sound_of_accepts _ valued (formed expr rfl) given accepts
  | expr value semicolon =>
    simp only [Stmt.check, gives_bind] at given
    obtain ⟨_, passed, -⟩ := given
    refine List.forall_mem_singleton.mpr ?_
    exact Root.sound_of_unused valued formed passed (by decide)
  | block | breakLoop | empty | missing => exact List.forall_mem_nil _

theorem Declarator.sound_uses {region : Region} {base : Base} {declarator : Declarator}
    (valued : table.Valued) (formed : declarator.Formed)
    (given : (declarator.declare region base table).Gives table') :
    ∀ root ∈ declarator.uses.map (Root.standing table), root.Sound := by
  obtain ⟨name, ty, -, typed, -⟩ := gives_declare.mp given
  obtain ⟨slot, array, initializer⟩ := declarator
  simp only [Declarator.type, gives_bind] at typed
  obtain ⟨extent, -, typed⟩ := typed
  cases initializer with
  | none => exact List.forall_mem_nil _
  | some initialized =>
    have uses : Declarator.uses ⟨slot, array, some initialized⟩ = initialized.2.uses :=
      List.append_nil _
    rw [uses]
    cases region with
    | members index struct => exact absurd typed gives_violate
    | topLevel | body depth => exact Initializer.sound_uses valued (formed.2 _ rfl) typed

/-- The expressions in declarators are sound, and all that are written are there. -/
theorem Declarator.sound_roots {region : Region} {base : Base} (value : base ≠ .void)
    {declarators : List Declarator} (valued : table.Valued)
    (formed : ∀ declarator ∈ declarators, declarator.Formed)
    (given : (declarators.foldlM (Declarator.declare region base) table).Gives table') :
    (∀ root ∈ Declarator.roots region base table declarators, root.Sound) ∧
      (Declarator.roots region base table declarators).map Root.written =
        declarators.flatMap Declarator.uses := by
  induction declarators generalizing table with
  | nil => exact ⟨List.forall_mem_nil _, rfl⟩
  | cons declarator declarators ih =>
    obtain ⟨formed, formed'⟩ := List.forall_mem_cons.mp formed
    rw [List.foldlM_cons, gives_bind] at given
    obtain ⟨middle, declared, given⟩ := given
    obtain ⟨sound, written⟩ := ih (valued_declare valued value declared) formed' given
    rw [roots, behind_of_gives declared]
    constructor
    · exact List.forall_mem_append.mpr ⟨sound_uses valued formed declared, sound⟩
    · rw [List.map_append, Root.map_written, written, List.flatMap_cons]

end

/-- What stands at a visit that passes is sound, and all that is written there. -/
theorem Visit.sound_roots {visit : Visit} {table : SymbolTable} (valued : visit.table.Valued)
    (formed : visit.item.2.Formed) (given : visit.check.Gives table) :
    (∀ root ∈ visit.roots, root.Sound) ∧ visit.roots.map Root.written = visit.item.2.uses := by
  cases visit with
  | decl region loops known varDecl =>
    simp only [Visit.check, VarDecl.declare, gives_bind] at given
    obtain ⟨base, resolved, _, declared, -⟩ := given
    have roots : (Visit.decl region loops known varDecl).roots =
        Declarator.roots region base known varDecl.declarators.toList := behind_of_gives resolved
    rw [roots]
    exact Declarator.sound_roots (BaseName.ne_void resolved) valued formed declared
  | stmt scope loops known statement =>
    exact ⟨Stmt.sound_uses valued formed given, Root.map_written known statement.uses⟩

mutual

theorem Stmt.formed_items : ∀ (stmt : Stmt) (loops : Nat), stmt.Formed →
    ∀ item ∈ stmt.items loops, item.2.Formed
  | .block _ inner _, loops, formed =>
    List.forall_mem_cons.mpr ⟨formed, Items.formed_items inner loops formed⟩
  | .ifThen _ _ body, loops, formed =>
    List.forall_mem_cons.mpr ⟨formed, Stmt.formed_items body loops formed.2⟩
  | .ifElse _ _ body _ otherwise, loops, formed =>
    List.forall_mem_cons.mpr ⟨formed, List.forall_mem_append.mpr
      ⟨Stmt.formed_items body loops formed.2.1, Stmt.formed_items otherwise loops formed.2.2.2⟩⟩
  | .whileLoop _ _ body, loops, formed | .forLoop _ _ body, loops, formed =>
    List.forall_mem_cons.mpr ⟨formed, Stmt.formed_items body (loops + 1) formed.2⟩
  | .breakLoop _ _, _, formed | .returnValue _ _ _, _, formed | .empty _, _, formed
  | .expr _ _, _, formed | .missing _, _, formed => List.forall_mem_singleton.mpr formed

theorem Items.formed_items : ∀ (inner : Items) (loops : Nat), inner.Formed →
    ∀ item ∈ inner.items loops, item.2.Formed
  | .nil, _, _ => List.forall_mem_nil _
  | .decl _ rest, loops, formed =>
    List.forall_mem_cons.mpr ⟨formed.1, Items.formed_items rest loops formed.2⟩
  | .stmt stmt rest, loops, formed =>
    List.forall_mem_append.mpr
      ⟨Stmt.formed_items stmt loops formed.1, Items.formed_items rest loops formed.2⟩

end

theorem Decl.formed_items (decl : Decl) (formed : decl.Formed) :
    ∀ item ∈ decl.items, item.2.Formed := by
  cases decl with
  | struct word name opening members closing semicolon => exact List.forall_mem_map.mpr formed
  | function result name opening params closing body =>
    cases body with
    | found block => exact Items.formed_items block.items 0 (formed.2 block rfl)
    | missing instead => exact List.forall_mem_nil _
  | vars tried decl => exact List.forall_mem_singleton.mpr formed.1
  | missing tried instead => exact List.forall_mem_nil _

/-! ### Programs -/

/-- An expression in that of a root has a type. It is void just if it is a call of something that
gives nothing, perhaps in parentheses; and then it is the whole expression of the root, perhaps in
parentheses, and nothing is done with its value. -/
structure Root.HasPart (root : Root) (expr : Expr) (operand : Operand) : Prop where
  given : (expr.type root.table).Gives operand
  void_iff : operand.ty.isVoid = true ↔ ∃ call, expr.Wraps call ∧ call.CallsVoid root.table
  whole : operand.ty.isVoid = true → root.use.IsUnused ∧ root.expr.Wraps expr

theorem Root.Sound.hasPart {root : Root} (sound : root.Sound) {expr : Expr}
    (among : expr ∈ root.expr.inside) : ∃ operand, root.HasPart expr operand := by
  have formed := Expr.formed_inside root.expr sound.formed expr among
  obtain ⟨ty, assignable, typed, unused⟩ := sound.typed
  have proper := Expr.proper sound.valued typed
  rcases proper.inside expr among with ⟨ty', assignable', typed', value⟩ | isVoid
  · refine ⟨⟨ty', assignable'⟩, (expr.gives_type root.table formed).mpr typed', ?_, fun void => ?_⟩
    · refine ⟨fun void => absurd (value.symm.trans void) nofun, ?_⟩
      rintro ⟨call, wraps, calls⟩
      exact calls.isVoid (wraps.typed typed')
    · exact absurd (value.symm.trans void) nofun
  · obtain ⟨rfl, wraps, typed', calls⟩ := isVoid
    refine ⟨⟨.void, assignable⟩, (expr.gives_type root.table formed).mpr typed', ?_, fun void => ?_⟩
    · exact ⟨fun _ => calls, fun _ => rfl⟩
    · exact ⟨unused void, wraps⟩

namespace Program

/-- Void values are not used in the program that tokens are accepted as. -/
structure VoidUnused (tokens : List Token) (program : Program) : Prop where
  written : Written tokens (decls tokens)
  /-- The check comes to all declarations of variables, all statements and all expressions that are
  written. -/
  items : (visits tokens).map Visit.item = (decls tokens).flatMap Decl.items
  uses : (roots tokens).map Root.written =
    ((decls tokens).flatMap Decl.items).flatMap fun item => item.2.uses
  parts : ∀ root ∈ roots tokens, ∀ expr ∈ root.expr.inside, ∃ operand, root.HasPart expr operand
  /-- No variable, parameter or member is void, whatever table is there. -/
  before : ∀ visit ∈ visits tokens, visit.table.Valued
  behind : ∀ visit ∈ visits tokens, ∃ table, visit.check.Gives table ∧ table.Valued
  final : program.table.Valued

variable {tokens : List Token} {program : Program}

theorem ofTokens_voidUnused (accepted : (ofTokens tokens).result = .ok program) :
    VoidUnused tokens program := by
  have written : Written tokens (decls tokens) := by
    obtain ⟨decls, written⟩ := exists_written accepted
    exact (written.decls_eq (ends_of_accepted accepted)).symm ▸ written
  obtain ⟨items, passed⟩ := visits_of_accepted accepted
  have holds := holds_tableOfDecls SymbolTable.valued_invariant (decls tokens)
  have formed : ∀ visit ∈ visits tokens, visit.item.2.Formed := by
    intro visit among
    have item : visit.item ∈ (decls tokens).flatMap Decl.items := items ▸ List.mem_map_of_mem among
    obtain ⟨decl, among, item⟩ := List.mem_flatMap.mp item
    exact decl.formed_items (written.formed decl among) visit.item item
  have sound : ∀ visit ∈ visits tokens, (∀ root ∈ visit.roots, root.Sound) ∧
      visit.roots.map Root.written = visit.item.2.uses := by
    intro visit among
    obtain ⟨table, given⟩ := passed visit among
    exact Visit.sound_roots (holds.visited visit among) (formed visit among) given
  refine ⟨written, items, ?_, fun root among expr inside => ?_, holds.visited, ?_, ?_⟩
  · rw [roots, List.map_flatMap, ← items, List.flatMap_map]
    exact List.flatMap_congr fun visit among => (sound visit among).2
  · obtain ⟨visit, visited, among⟩ := List.mem_flatMap.mp among
    exact ((sound visit visited).1 root among).hasPart inside
  · intro visit among
    obtain ⟨table, given⟩ := passed visit among
    have valued := SymbolTable.valued_invariant
    exact ⟨table, given, Visit.holds_check valued (holds.visited visit among) given⟩
  · exact holds.given _ (gives_decls accepted)

/-- A function may call itself for nothing: `void f() { (f()); for (f();; f()) ; }`. -/
theorem ofTokens_voidUnused_header :
    let tokens : List Token :=
      [Kind.keyword .voidKw, .identifier "f", .delimiter .leftParen, .delimiter .rightParen,
        .delimiter .leftBrace, .delimiter .leftParen, .identifier "f", .delimiter .leftParen,
        .delimiter .rightParen, .delimiter .rightParen, .delimiter .semicolon, .keyword .forKw,
        .delimiter .leftParen, .identifier "f", .delimiter .leftParen, .delimiter .rightParen,
        .delimiter .semicolon, .delimiter .semicolon, .identifier "f", .delimiter .leftParen,
        .delimiter .rightParen, .delimiter .rightParen, .delimiter .semicolon,
        .delimiter .rightBrace, .endOfInput].map fun kind => ⟨kind, ⟨0, 0⟩, 1⟩
    ∃ program, (ofTokens tokens).result = .ok program ∧ VoidUnused tokens program ∧
      (roots tokens).map Root.use = [.statement, .first, .step] := by
  intro tokens
  refine ⟨_, rfl, ofTokens_voidUnused rfl, rfl⟩

end Program

end PlainC
