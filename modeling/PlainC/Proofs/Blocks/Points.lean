import PlainC.Program
import PlainC.Proofs.Blocks.Locals
import PlainC.Proofs.Checking.Refusals
import PlainC.Proofs.Syntax.Formed

set_option autoImplicit false

/-!
Points in a block: a program in which the items of one block are left open from one point of the
block on. Whatever is filled in there, the lexemes in front of it and behind it are the same, and what
makes no difference to the check of a block makes none to the check of the program.
-/

namespace PlainC

open Checked

mutual

/-- A statement with a point in one of its blocks. -/
inductive StmtPoint where
  | block (opening : Place) (items : ItemsPoint) (closing : Slot Place)
  | ifThen (word : Place) (condition : Condition) (body : StmtPoint)
  | ifElse (word : Place) (condition : Condition) (body : StmtPoint) (elseWord : Place)
      (otherwise : Stmt)
  | otherwise (word : Place) (condition : Condition) (body : Stmt) (elseWord : Place)
      (otherwise : StmtPoint)
  | whileLoop (word : Place) (condition : Condition) (body : StmtPoint)
  | forLoop (word : Place) (header : ForHeader) (body : StmtPoint)

/-- The items of a block up to a point, or with a point inside of one of them. -/
inductive ItemsPoint where
  | here
  | decl (decl : VarDecl) (rest : ItemsPoint)
  | stmt (stmt : Stmt) (rest : ItemsPoint)
  | inside (stmt : StmtPoint) (rest : Items)

end

/-- A program with a point in the body of a function. -/
structure ProgramPoint where
  before : List Decl
  result : ResultType
  name : Name
  opening : Place
  params : Option (Separated (Slot Param))
  closing : Slot Place
  left : Place
  items : ItemsPoint
  right : Slot Place
  after : List Decl

/-! ### Filling -/

mutual

/-- The statement with the items from the point on. -/
def StmtPoint.fill (items : Items) : StmtPoint → Stmt
  | .block opening point closing => .block opening (point.fill items) closing
  | .ifThen word condition body => .ifThen word condition (body.fill items)
  | .ifElse word condition body elseWord otherwise =>
    .ifElse word condition (body.fill items) elseWord otherwise
  | .otherwise word condition body elseWord otherwise =>
    .ifElse word condition body elseWord (otherwise.fill items)
  | .whileLoop word condition body => .whileLoop word condition (body.fill items)
  | .forLoop word header body => .forLoop word header (body.fill items)

def ItemsPoint.fill (items : Items) : ItemsPoint → Items
  | .here => items
  | .decl decl rest => .decl decl (rest.fill items)
  | .stmt stmt rest => .stmt stmt (rest.fill items)
  | .inside stmt rest => .stmt (stmt.fill items) rest

end

namespace ProgramPoint

/-- The function that the point is in. -/
def function (point : ProgramPoint) (items : Items) : Decl :=
  .function point.result point.name point.opening point.params point.closing
    (.found ⟨point.left, point.items.fill items, point.right⟩)

def fill (point : ProgramPoint) (items : Items) : List Decl :=
  point.before ++ point.function items :: point.after

end ProgramPoint

/-! ### Lexemes -/

mutual

/-- What stands in front of the point. -/
def StmtPoint.front : StmtPoint → Parts
  | .block opening items _ => Delimiter.leftBrace.part opening ++ items.front
  | .ifThen word condition body | .ifElse word condition body _ _ =>
    Keyword.ifKw.part word ++ condition.parts ++ body.front
  | .otherwise word condition body elseWord otherwise =>
    Keyword.ifKw.part word ++ condition.parts ++ body.parts ++ Keyword.elseKw.part elseWord ++
      otherwise.front
  | .whileLoop word condition body => Keyword.whileKw.part word ++ condition.parts ++ body.front
  | .forLoop word header body => Keyword.forKw.part word ++ header.parts ++ body.front

def ItemsPoint.front : ItemsPoint → Parts
  | .here => []
  | .decl decl rest => decl.parts ++ rest.front
  | .stmt stmt rest => stmt.parts ++ rest.front
  | .inside stmt _ => stmt.front

end

mutual

/-- What stands behind the block in which the point is. -/
def StmtPoint.behind : StmtPoint → Parts
  | .block _ items closing => items.behind ++ closing.parts Delimiter.rightBrace.part
  | .ifThen _ _ body | .whileLoop _ _ body | .forLoop _ _ body => body.behind
  | .ifElse _ _ body elseWord otherwise =>
    body.behind ++ Keyword.elseKw.part elseWord ++ otherwise.parts
  | .otherwise _ _ _ _ otherwise => otherwise.behind

def ItemsPoint.behind : ItemsPoint → Parts
  | .here => []
  | .decl _ rest | .stmt _ rest => rest.behind
  | .inside stmt rest => stmt.behind ++ rest.parts

end

namespace ProgramPoint

def front (point : ProgramPoint) : Parts :=
  point.before.flatMap Decl.parts ++ (point.result.parts ++ namePart point.name ++
    Delimiter.leftParen.part point.opening ++
    optionalParts (Separated.parts (Slot.parts Param.parts)) point.params ++
    point.closing.parts Delimiter.rightParen.part ++ Delimiter.leftBrace.part point.left ++
    point.items.front)

def behind (point : ProgramPoint) : Parts :=
  point.items.behind ++ point.right.parts Delimiter.rightBrace.part ++
    point.after.flatMap Decl.parts

end ProgramPoint

mutual

theorem StmtPoint.parts_fill (items : Items) : ∀ point : StmtPoint,
    (point.fill items).parts = point.front ++ (items.parts ++ point.behind)
  | .block _ point _ => by
    simp [StmtPoint.fill, StmtPoint.front, StmtPoint.behind, Stmt.parts, point.parts_fill items]
  | .ifThen _ _ body | .ifElse _ _ body _ _ | .whileLoop _ _ body | .forLoop _ _ body => by
    simp [StmtPoint.fill, StmtPoint.front, StmtPoint.behind, Stmt.parts, body.parts_fill items]
  | .otherwise _ _ _ _ otherwise => by
    simp [StmtPoint.fill, StmtPoint.front, StmtPoint.behind, Stmt.parts, otherwise.parts_fill items]

theorem ItemsPoint.parts_fill (items : Items) : ∀ point : ItemsPoint,
    (point.fill items).parts = point.front ++ (items.parts ++ point.behind)
  | .here => by simp [ItemsPoint.fill, ItemsPoint.front, ItemsPoint.behind]
  | .decl _ rest | .stmt _ rest => by
    simp [ItemsPoint.fill, ItemsPoint.front, ItemsPoint.behind, Items.parts, rest.parts_fill items]
  | .inside stmt _ => by
    simp [ItemsPoint.fill, ItemsPoint.front, ItemsPoint.behind, Items.parts, stmt.parts_fill items]

end

theorem ProgramPoint.parts_fill (point : ProgramPoint) (items : Items) :
    (point.fill items).flatMap Decl.parts = point.front ++ (items.parts ++ point.behind) := by
  simp [fill, function, front, behind, Decl.parts, Block.parts, Slot.parts,
    ItemsPoint.parts_fill items]

/-! ### Forms -/

/-- Each `else` belongs to the same `if`, whatever is filled in. -/
theorem StmtPoint.endsOpen_fill (items items' : Items) : ∀ point : StmtPoint,
    (point.fill items').endsOpen = (point.fill items).endsOpen
  | .block _ _ _ | .ifThen _ _ _ | .ifElse _ _ _ _ _ => rfl
  | .otherwise _ _ _ _ body | .whileLoop _ _ body | .forLoop _ _ body => by
    simp only [StmtPoint.fill, Stmt.endsOpen, body.endsOpen_fill items items']

section

variable {items items' : Items}

mutual

theorem StmtPoint.formed_fill (formed : items.Formed → items'.Formed) : ∀ point : StmtPoint,
    (point.fill items).Formed → (point.fill items').Formed
  | .block _ point _, h => point.formed_fill formed h
  | .ifThen _ _ body, ⟨condition, h⟩ | .whileLoop _ _ body, ⟨condition, h⟩
  | .forLoop _ _ body, ⟨condition, h⟩ => ⟨condition, body.formed_fill formed h⟩
  | .ifElse _ _ body _ _, ⟨condition, h, closed, otherwise⟩ =>
    ⟨condition, body.formed_fill formed h, (body.endsOpen_fill items items').trans closed, otherwise⟩
  | .otherwise _ _ _ _ otherwise, ⟨condition, h, closed, h'⟩ =>
    ⟨condition, h, closed, otherwise.formed_fill formed h'⟩

theorem ItemsPoint.formed_fill (formed : items.Formed → items'.Formed) : ∀ point : ItemsPoint,
    (point.fill items).Formed → (point.fill items').Formed
  | .here, h => formed h
  | .decl _ rest, ⟨decl, h⟩ => ⟨decl, rest.formed_fill formed h⟩
  | .stmt _ rest, ⟨stmt, h⟩ => ⟨stmt, rest.formed_fill formed h⟩
  | .inside stmt _, ⟨h, rest⟩ => ⟨stmt.formed_fill formed h, rest⟩

end

theorem ProgramPoint.formed_fill (formed : items.Formed → items'.Formed) (point : ProgramPoint)
    (h : ∀ decl ∈ point.fill items, decl.Formed) : ∀ decl ∈ point.fill items', decl.Formed := by
  rw [fill, List.forall_mem_append, List.forall_mem_cons] at h ⊢
  obtain ⟨before, ⟨params, body⟩, after⟩ := h
  refine ⟨before, ⟨params, ?_⟩, after⟩
  rintro _ ⟨⟩
  exact point.items.formed_fill formed (body _ rfl)

end

/-! ### Names -/

mutual

/-- The names that are declared in front of the point. -/
def StmtPoint.declaredNames : StmtPoint → List String
  | .block _ items _ => items.declaredNames
  | .ifThen _ _ body | .ifElse _ _ body _ _ | .whileLoop _ _ body | .forLoop _ _ body =>
    body.declaredNames
  | .otherwise _ _ body _ otherwise => body.declaredNames ++ otherwise.declaredNames

def ItemsPoint.declaredNames : ItemsPoint → List String
  | .here => []
  | .decl decl rest => decl.declaredNames ++ rest.declaredNames
  | .stmt stmt rest => stmt.declaredNames ++ rest.declaredNames
  | .inside stmt _ => stmt.declaredNames

end

/-- The names that are declared in the function in front of the point, in whatever blocks. -/
def ProgramPoint.declaredNames (point : ProgramPoint) : List String := point.items.declaredNames

/-! ### Checks -/

/-- Wherever names are those of variables and the first items pass, the second ones give the same
table, or end for one of the causes, if there are any. -/
def Items.TurnsInto (refused : Option (Cause → Prop)) (names : List String) (items items' : Items) :
    Prop :=
  ∀ (scope : FunctionScope) (loops : Nat) (table table' : SymbolTable),
    table.Holds scope.depth names → (items.check scope loops table).Gives table' →
      (items'.check scope loops table).Turns refused table'

section

variable {items items' : Items} {refused : Option (Cause → Prop)} {scope : FunctionScope}

mutual

theorem StmtPoint.turns_fill : ∀ (point : StmtPoint) {names : List String} {loops : Nat}
    {table table' : SymbolTable}, items.TurnsInto refused (names ++ point.declaredNames) items' →
      table.Holds scope.depth names → ((point.fill items).check scope loops table).Gives table' →
        ((point.fill items').check scope loops table).Turns refused table'
  | .block _ point _, _, _, _, _, turns, held, h => by
    simp only [StmtPoint.fill, Stmt.check] at h ⊢
    obtain ⟨middle, checked, closed⟩ := gives_bind.mp h
    exact (point.turns_fill turns held checked).before closed
  | .ifThen _ _ body, _, _, _, _, turns, held, h => by
    simp only [StmtPoint.fill, Stmt.check] at h ⊢
    obtain ⟨_, condition, checked⟩ := gives_bind.mp h
    exact (body.turns_fill turns held checked).behind condition
  | .whileLoop _ _ body, _, _, _, _, turns, held, h => by
    simp only [StmtPoint.fill, Stmt.check] at h ⊢
    obtain ⟨_, condition, checked⟩ := gives_bind.mp h
    exact (body.turns_fill turns held checked).behind condition
  | .forLoop _ _ body, _, _, _, _, turns, held, h => by
    simp only [StmtPoint.fill, Stmt.check] at h ⊢
    obtain ⟨_, header, checked⟩ := gives_bind.mp h
    exact (body.turns_fill turns held checked).behind header
  | .ifElse _ _ body _ _, _, _, _, _, turns, held, h => by
    simp only [StmtPoint.fill, Stmt.check] at h ⊢
    obtain ⟨_, condition, h⟩ := gives_bind.mp h
    obtain ⟨middle, checked, otherwise⟩ := gives_bind.mp h
    exact ((body.turns_fill turns held checked).before otherwise).behind condition
  | .otherwise _ _ _ _ otherwise, _, _, _, _, turns, held, h => by
    simp only [StmtPoint.fill, Stmt.check] at h ⊢
    obtain ⟨_, condition, h⟩ := gives_bind.mp h
    obtain ⟨middle, checked, last⟩ := gives_bind.mp h
    rw [StmtPoint.declaredNames, ← List.append_assoc] at turns
    have held' := held.adds (Stmt.addsLocals checked)
    exact ((otherwise.turns_fill turns held' last).behind checked).behind condition

theorem ItemsPoint.turns_fill : ∀ (point : ItemsPoint) {names : List String} {loops : Nat}
    {table table' : SymbolTable}, items.TurnsInto refused (names ++ point.declaredNames) items' →
      table.Holds scope.depth names → ((point.fill items).check scope loops table).Gives table' →
        ((point.fill items').check scope loops table).Turns refused table'
  | .here, _, _, _, _, turns, held, h => by
    rw [ItemsPoint.declaredNames, List.append_nil] at turns
    exact turns _ _ _ _ held h
  | .decl _ rest, _, _, _, _, turns, held, h => by
    simp only [ItemsPoint.fill, Items.check] at h ⊢
    obtain ⟨middle, declared, checked⟩ := gives_bind.mp h
    rw [ItemsPoint.declaredNames, ← List.append_assoc] at turns
    exact (rest.turns_fill turns (held.adds (VarDecl.addsLocals declared)) checked).behind declared
  | .stmt _ rest, _, _, _, _, turns, held, h => by
    simp only [ItemsPoint.fill, Items.check] at h ⊢
    obtain ⟨middle, first, checked⟩ := gives_bind.mp h
    rw [ItemsPoint.declaredNames, ← List.append_assoc] at turns
    exact (rest.turns_fill turns (held.adds (Stmt.addsLocals first)) checked).behind first
  | .inside stmt _, _, _, _, _, turns, held, h => by
    simp only [ItemsPoint.fill, Items.check] at h ⊢
    obtain ⟨middle, checked, rest⟩ := gives_bind.mp h
    exact (stmt.turns_fill turns held checked).before rest

end

/-- In the body of a function no names are declared in front of the items. -/
theorem ItemsPoint.turns_body {point : ItemsPoint} {loops : Nat} {table table' : SymbolTable}
    (turns : items.TurnsInto refused point.declaredNames items')
    (h : ((point.fill items).check scope loops table).Gives table') :
    ((point.fill items').check scope loops table).Turns refused table' := by
  rw [← List.nil_append point.declaredNames] at turns
  exact point.turns_fill turns (.nil _ _) h

namespace ProgramPoint

variable {point : ProgramPoint}

theorem turns_function (turns : items.TurnsInto refused point.declaredNames items')
    {declared declared' : Declared} (h : ((point.function items).check declared).Gives declared') :
    ((point.function items').check declared).Turns refused declared' := by
  simp only [function, Decl.check, Declared.declareFunction, Block.check, require, pure_bind,
    bind_assoc] at h ⊢
  obtain ⟨_, noted, h⟩ := gives_bind.mp h
  obtain ⟨ty, resolved, h⟩ := gives_bind.mp h
  obtain ⟨first, added, h⟩ := gives_bind.mp h
  obtain ⟨second, params, h⟩ := gives_bind.mp h
  obtain ⟨_, closed, h⟩ := gives_bind.mp h
  obtain ⟨table, checked, rest⟩ := gives_bind.mp h
  have body := ItemsPoint.turns_body turns checked
  exact ((((((body.before rest).behind closed).behind params).behind added).behind resolved).behind
    noted)

/-- What the items at the point turn into, the whole program does. -/
theorem turns_fill (turns : items.TurnsInto refused point.declaredNames items') {table : SymbolTable}
    (h : (Program.tableOfDecls (point.fill items)).Gives table) :
    (Program.tableOfDecls (point.fill items')).Turns refused table := by
  simp only [Program.tableOfDecls, fill, List.foldlM_append, List.foldlM_cons, bind_assoc] at h ⊢
  obtain ⟨declared, before, h⟩ := gives_bind.mp h
  obtain ⟨declared', checked, after⟩ := gives_bind.mp h
  exact ((turns_function turns checked).before after).behind before

/-- No name is declared twice in a function. -/
theorem nodup_declaredNames {table : SymbolTable}
    (h : (Program.tableOfDecls (point.fill items)).Gives table) :
    (point.items.fill items).declaredNames.Nodup := by
  simp only [Program.tableOfDecls, fill, List.foldlM_append, List.foldlM_cons, bind_assoc] at h
  obtain ⟨declared, -, h⟩ := gives_bind.mp h
  obtain ⟨declared', checked, -⟩ := gives_bind.mp h
  simp only [function, Decl.check, Declared.declareFunction, Block.check, gives_bind,
    gives_require] at checked
  obtain ⟨_, -, ty, -, first, -, second, -, _, -, _, ⟨⟩, last, ⟨table, checked, -⟩, -⟩ := checked
  exact (Items.addsLocals checked).nodup

end ProgramPoint

end

end PlainC
