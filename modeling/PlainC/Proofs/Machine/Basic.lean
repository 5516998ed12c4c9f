import PlainC.Proofs.Checking.Gives
import PlainC.Program

set_option autoImplicit false

/-!
The check of a program as a machine. It takes one step for each name that is declared, for each
beginning and end of a struct, function or block, and for each statement. In every state stands what
is left to do, so that nothing is hidden in a recursion.
-/

namespace PlainC

namespace Machine

/-- A declaration of variables that is underway: the declarators that are left. -/
structure Pending where
  base : Base
  declarators : List Declarator
  semicolon : Slot Place

/-- What is left to do of the statements of a function, inside of a number of loops. -/
inductive Task where
  | items (loops : Nat) (items : Items)
  | stmt (loops : Nat) (stmt : Stmt)
  | endBlock (closing : Slot Place)

/-- What the machine is in the middle of: nothing or a global declaration; a struct, which has an
index; or a function, of which first the parameters are declared. -/
inductive Context where
  | global (pending : Option Pending)
  | struct (index : Nat) (name : String) (pending : Option Pending) (members : List VarDecl)
      (closing semicolon : Slot Place)
  | params (index : Nat) (scope : FunctionScope) (params : List (Slot Param))
      (closing : Slot Place) (body : Slot Block)
  | body (index : Nat) (scope : FunctionScope) (pending : Option Pending) (tasks : List Task)
      (closing : Slot Place)

/-- What a name is declared as. A function has a depth, which is that of its parameters and
variables, and a member has the index of its struct. -/
inductive Role where
  | globalVar | struct
  | function (depth : Nat)
  | member (struct : Nat)
  | parameter (depth : Nat)
  | localVar (depth : Nat)
  deriving DecidableEq

structure Declaration where
  role : Role
  name : Name

namespace Context

def pending : Context → Option Pending
  | global pending | struct _ _ pending _ _ _ | body _ _ pending _ _ => pending
  | params .. => none

def setPending (pending : Option Pending) : Context → Context
  | global _ => global pending
  | struct index name _ members closing semicolon =>
    struct index name pending members closing semicolon
  | params index scope rest closing block => params index scope rest closing block
  | body index scope _ tasks closing => body index scope pending tasks closing

/-- Where variables are declared. -/
def region : Context → Region
  | global _ => .topLevel
  | struct index name _ _ _ _ => .members index name
  | params _ scope _ _ _ | body _ scope _ _ _ => .body scope.depth

/-- What variables are declared as. -/
def role : Context → Role
  | global _ => .globalVar
  | struct index _ _ _ _ _ => .member index
  | params _ scope _ _ _ | body _ scope _ _ _ => .localVar scope.depth

/-- The function that the machine is in, with its index in the table. -/
def function? : Context → Option (Nat × FunctionScope)
  | global _ | struct .. => none
  | params index scope _ _ _ | body index scope _ _ _ => some (index, scope)

end Context

structure State where
  context : Context
  table : SymbolTable
  /-- The number of functions so far. -/
  functions : Nat
  /-- The declarations that have not begun. -/
  decls : List Decl

/-- The state in front of all declarations. -/
def start (decls : List Decl) : State :=
  ⟨.global none, .initial, 0, decls⟩

end Machine

open Machine

/-- Begins a declaration of variables. -/
def VarDecl.enter (table : SymbolTable) (decl : VarDecl) : Checked Pending := do
  let base ← decl.base.resolve table
  return ⟨base, decl.declarators.toList, decl.semicolon⟩

namespace Machine

namespace Pending

/-- Declares the next variable, or ends the declaration. -/
def step (region : Region) (table : SymbolTable) (pending : Pending) :
    Checked (Option Pending × SymbolTable) :=
  match pending.declarators with
  | [] => do
    Checked.requireMark .semicolon pending.semicolon
    return (none, table)
  | declarator :: declarators => do
    let table ← declarator.declare region pending.base table
    return (some { pending with declarators }, table)

end Pending

namespace Task

/-- Does a task, which can begin a declaration of variables and leave other tasks. -/
def step (scope : FunctionScope) (table : SymbolTable) :
    Task → Checked (Option Pending × List Task)
  | items _ .nil => return (none, [])
  | items loops (.decl decl rest) => do
    let pending ← decl.enter table
    return (some pending, [items loops rest])
  | items loops (.stmt first rest) => return (none, [stmt loops first, items loops rest])
  | stmt loops (.block _ inner closing) => return (none, [items loops inner, endBlock closing])
  | stmt loops (.ifThen _ condition body) => do
    condition.check table
    return (none, [stmt loops body])
  | stmt loops (.ifElse _ condition body _ otherwise) => do
    condition.check table
    return (none, [stmt loops body, stmt loops otherwise])
  | stmt loops (.whileLoop _ condition body) => do
    condition.check table
    return (none, [stmt (loops + 1) body])
  | stmt loops (.forLoop _ header body) => do
    header.check table
    return (none, [stmt (loops + 1) body])
  | stmt loops simple => do
    let _ ← simple.check scope loops table
    return (none, [])
  | endBlock closing => do
    Checked.requireMark .rightBrace closing
    return (none, [])

end Task

namespace State

/-- Begins a declaration. -/
def enter (s : State) : Decl → Checked State
  | .struct _ name _ members closing semicolon => do
    if let some previous := s.table.find? name.value then
      Checked.redefined name previous.line
    let index := s.table.size
    let table ← s.table.declare name (topLevelSymbol name .struct (.struct index))
    return { s with context := .struct index name.value none members closing semicolon, table }
  | .function result name _ params closing body => do
    result.noteStruct
    let ty ← result.resolve s.table
    let index := s.table.size
    let depth := s.functions + 1
    let table ← s.table.declare name (topLevelSymbol name .function ty)
    let params := (params.map Separated.toList).getD []
    return { s with
      context := .params index ⟨name.value, ty, depth⟩ params closing body
      table
      functions := depth }
  | .vars tried decl => do
    decl.base.noteStruct
    let _ ← decl.base.resolve s.table
    noteFunction tried decl.base.start
    let pending ← decl.enter s.table
    return { s with context := .global (some pending) }
  | .missing tried instead => do
    noteFunction tried instead.place
    Checked.unexpected .declaration instead

/-- Takes the next step outside of declarations of variables. Without anything left to do the state
stays as it is. -/
def proceed (s : State) : Checked State :=
  match s.context with
  | .global _ =>
    match s.decls with
    | [] => return s
    | decl :: decls => { s with decls }.enter decl
  | .struct index name _ (decl :: members) closing semicolon => do
    let pending ← decl.enter s.table
    return { s with context := .struct index name (some pending) members closing semicolon }
  | .struct _ _ _ [] closing semicolon => do
    Checked.requireMark .rightBrace closing
    Checked.requireMark .semicolon semicolon
    return { s with context := .global none }
  | .params index scope (param :: params) closing body => do
    let table ← Param.declare index scope.depth s.table param
    return { s with context := .params index scope params closing body, table }
  | .params index scope [] closing body => do
    Checked.requireMark .rightParen closing
    let block ← Checked.require (.mark .leftBrace) body
    return { s with context := .body index scope none [.items 0 block.items] block.closing }
  | .body index scope _ (task :: tasks) closing => do
    let (pending, next) ← task.step scope s.table
    return { s with context := .body index scope pending (next ++ tasks) closing }
  | .body index _ _ [] closing => do
    Checked.requireMark .rightBrace closing
    return { s with context := .global none, table := s.table.truncate (index + 1) }

/-- Takes the next step. -/
def step (s : State) : Checked State :=
  match s.context.pending with
  | some pending => do
    let (pending, table) ← pending.step s.context.region s.table
    return { s with context := s.context.setPending pending, table }
  | none => s.proceed

/-- What the next step declares, if it passes. -/
def declares (s : State) : List Declaration :=
  match s.context.pending with
  | some pending =>
    match pending.declarators with
    | ⟨.found name, _, _⟩ :: _ => [⟨s.context.role, name⟩]
    | _ => []
  | none =>
    match s.context, s.decls with
    | .params _ scope (.found ⟨_, .found name, _⟩ :: _) _ _, _ => [⟨.parameter scope.depth, name⟩]
    | .global _, .struct _ name _ _ _ _ :: _ => [⟨.struct, name⟩]
    | .global _, .function _ name _ _ _ _ :: _ => [⟨.function (s.functions + 1), name⟩]
    | _, _ => []

end State

/-- The states that the machine gets to from declarations, each with what was declared on the way to
it, the oldest first. -/
inductive Reachable (decls : List Decl) : List Declaration → State → Prop
  | start : Reachable decls [] (start decls)
  | step {past s s'} : Reachable decls past s → s.step.Gives s' →
      Reachable decls (past ++ s.declares) s'

end Machine

end PlainC
