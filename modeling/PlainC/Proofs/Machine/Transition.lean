import PlainC.Proofs.Machine.Basic
import PlainC.Proofs.Table.Changing

set_option autoImplicit false

/-!
What a step can do, as a move of one of a few kinds, and what this does to the symbols. For these all
that matters of a state is where the machine is, the symbols and the number of functions; a move keeps
them as they are, or makes a transition.
-/

namespace PlainC

/-- What a symbol shows of its declaration. -/
structure Entry where
  name : String
  cls : SymbolClass
  storage : Storage
  depth : Nat
  line : Nat
  deriving DecidableEq

def Symbol.entry (symbol : Symbol) : Entry :=
  ⟨symbol.name, symbol.cls, symbol.storage, symbol.depth, symbol.line⟩

namespace Machine

namespace Role

def cls : Role → SymbolClass
  | globalVar | member _ | parameter _ | localVar _ => .var
  | struct => .struct
  | function _ => .function

def storage : Role → Storage
  | globalVar | struct | function _ => .global
  | parameter _ => .argument
  | member _ | localVar _ => .localVar

/-- The depth of what is declared, which for a function is not that of its parameters. -/
def depth : Role → Nat
  | globalVar | struct | function _ | member _ => 0
  | parameter depth | localVar depth => depth

end Role

/-- The entry of what is declared. -/
def Declaration.entry (decl : Declaration) : Entry :=
  ⟨decl.name.value, decl.role.cls, decl.role.storage, decl.role.depth, decl.name.place.line⟩

/-- Where the machine is. -/
inductive Site where
  | global
  | struct (index : Nat)
  | params (index : Nat) (scope : FunctionScope)
  | body (index : Nat) (scope : FunctionScope)

def Context.site : Context → Site
  | global _ => .global
  | struct index _ _ _ _ _ => .struct index
  | params index scope _ _ _ => .params index scope
  | body index scope _ _ _ => .body index scope

/-- What matters of a state. -/
structure Core where
  site : Site
  symbols : List Symbol
  functions : Nat

def State.core (s : State) : Core := ⟨s.context.site, s.table.symbols, s.functions⟩

open SymbolTable (Fresh FreshMember)

/-- What a step can declare, and what comes of the symbols. -/
inductive Transition : Core → List Declaration → Core → Prop
  | stay {core} : Transition core [] core
  | globalVar {symbols functions symbol name} : Fresh symbols symbol →
      symbol.entry = Declaration.entry ⟨.globalVar, name⟩ →
      Transition ⟨.global, symbols, functions⟩ [⟨.globalVar, name⟩]
        ⟨.global, symbols ++ [symbol], functions⟩
  | enterStruct {symbols functions symbol name} : Fresh symbols symbol →
      symbol.entry = Declaration.entry ⟨.struct, name⟩ →
      symbol.members = [] →
      Transition ⟨.global, symbols, functions⟩ [⟨.struct, name⟩]
        ⟨.struct symbols.length, symbols ++ [symbol], functions⟩
  | member {index symbols functions name member} : FreshMember symbols index member →
      member.entry = Declaration.entry ⟨.member index, name⟩ →
      Transition ⟨.struct index, symbols, functions⟩ [⟨.member index, name⟩]
        ⟨.struct index, symbols.modify index fun symbol =>
          { symbol with members := symbol.members ++ [member] }, functions⟩
  | leaveStruct {index symbols functions} :
      Transition ⟨.struct index, symbols, functions⟩ [] ⟨.global, symbols, functions⟩
  | enterFunction {symbols functions symbol name} : Fresh symbols symbol →
      symbol.entry = Declaration.entry ⟨.function (functions + 1), name⟩ → symbol.args = [] →
      Transition ⟨.global, symbols, functions⟩ [⟨.function (functions + 1), name⟩]
        ⟨.params symbols.length ⟨symbol.name, symbol.ty, functions + 1⟩, symbols ++ [symbol],
          functions + 1⟩
  | parameter {index scope symbols functions symbol name} : Fresh symbols symbol →
      symbol.entry = Declaration.entry ⟨.parameter scope.depth, name⟩ →
      Transition ⟨.params index scope, symbols, functions⟩ [⟨.parameter scope.depth, name⟩]
        ⟨.params index scope, (symbols ++ [symbol]).modify index fun function =>
          { function with args := function.args ++ [symbol] }, functions⟩
  | enterBody {index scope symbols functions} :
      Transition ⟨.params index scope, symbols, functions⟩ [] ⟨.body index scope, symbols, functions⟩
  | localVar {index scope symbols functions symbol name} : Fresh symbols symbol →
      symbol.entry = Declaration.entry ⟨.localVar scope.depth, name⟩ →
      Transition ⟨.body index scope, symbols, functions⟩ [⟨.localVar scope.depth, name⟩]
        ⟨.body index scope, symbols ++ [symbol], functions⟩
  | leaveFunction {index scope symbols functions} :
      Transition ⟨.body index scope, symbols, functions⟩ []
        ⟨.global, symbols.take (index + 1), functions⟩

/-! ### What a step does -/

/-- Everything that a step does, with what it makes sure of. It goes on with the declaration of
variables that is underway, or begins or ends something; with nothing left to do it stays. -/
inductive Move : State → State → Prop
  | declarator {context : Context} {table table' functions decls base declarator rest semicolon} :
      context.pending = some ⟨base, declarator :: rest, semicolon⟩ →
      (declarator.declare context.region base table).Gives table' →
      Move ⟨context, table, functions, decls⟩
        ⟨context.setPending (some ⟨base, rest, semicolon⟩), table', functions, decls⟩
  | leaveVars {context : Context} {table functions decls base place} :
      context.pending = some ⟨base, [], .found place⟩ →
      Move ⟨context, table, functions, decls⟩ ⟨context.setPending none, table, functions, decls⟩
  | finished {table functions} :
      Move ⟨.global none, table, functions, []⟩ ⟨.global none, table, functions, []⟩
  | enterStruct {table table' functions decls word name opening members closing semicolon} :
      (table.declare name (topLevelSymbol name .struct (.struct table.size))).Gives table' →
      Move ⟨.global none, table, functions,
          .struct word name opening members closing semicolon :: decls⟩
        ⟨.struct table.size name.value none members closing semicolon, table', functions, decls⟩
  | enterFunction {table table' functions decls name opening closing body ty}
      {result : ResultType} {params : Option (Separated (Slot Param))} :
      (result.resolve table).Gives ty →
      (table.declare name (topLevelSymbol name .function ty)).Gives table' →
      Move ⟨.global none, table, functions,
          .function result name opening params closing body :: decls⟩
        ⟨.params table.size ⟨name.value, ty, functions + 1⟩
            ((params.map Separated.toList).getD []) closing body, table', functions + 1, decls⟩
  | enterVars {table functions decls tried pending} {decl : VarDecl} :
      (decl.enter table).Gives pending →
      Move ⟨.global none, table, functions, .vars tried decl :: decls⟩
        ⟨.global (some pending), table, functions, decls⟩
  | enterMembers {index name members closing semicolon table functions decls pending}
      {decl : VarDecl} : (decl.enter table).Gives pending →
      Move ⟨.struct index name none (decl :: members) closing semicolon, table, functions, decls⟩
        ⟨.struct index name (some pending) members closing semicolon, table, functions, decls⟩
  | leaveStruct {index name closing semicolon table functions decls} :
      Move ⟨.struct index name none [] (.found closing) (.found semicolon), table, functions, decls⟩
        ⟨.global none, table, functions, decls⟩
  | parameter {index scope slot params closing body table table' functions decls} :
      (Param.declare index scope.depth table slot).Gives table' →
      Move ⟨.params index scope (slot :: params) closing body, table, functions, decls⟩
        ⟨.params index scope params closing body, table', functions, decls⟩
  | enterBody {index scope closing block table functions decls} :
      Move ⟨.params index scope [] (.found closing) (.found block), table, functions, decls⟩
        ⟨.body index scope none [.items 0 block.items] block.closing, table, functions, decls⟩
  | task {index scope tasks closing table functions decls pending next} {task : Task} :
      (task.step scope table).Gives (pending, next) →
      Move ⟨.body index scope none (task :: tasks) closing, table, functions, decls⟩
        ⟨.body index scope pending (next ++ tasks) closing, table, functions, decls⟩
  | leaveFunction {index scope closing table functions decls} :
      Move ⟨.body index scope none [] (.found closing), table, functions, decls⟩
        ⟨.global none, table.truncate (index + 1), functions, decls⟩

section

variable {s s' : State}

open Checked

theorem move_of_enter {table : SymbolTable} {functions : Nat} {decls : List Decl} {decl : Decl}
    (h : (State.enter ⟨.global none, table, functions, decls⟩ decl).Gives s') :
    Move ⟨.global none, table, functions, decl :: decls⟩ s' := by
  cases decl with
  | struct word name opening members closing semicolon =>
    simp only [State.enter] at h
    split at h
    · simp [redefined] at h
    · simp only [gives_bind, gives_pure] at h
      obtain ⟨table', declared, rfl⟩ := h
      exact .enterStruct declared
  | function result name opening params closing body =>
    simp only [State.enter, gives_bind, gives_pure] at h
    obtain ⟨_, -, ty, resolved, table', declared, rfl⟩ := h
    exact .enterFunction resolved declared
  | vars tried decl =>
    simp only [State.enter, gives_bind, gives_pure] at h
    obtain ⟨_, -, _, -, _, -, pending, entered, rfl⟩ := h
    exact .enterVars entered
  | missing tried instead => simp [State.enter] at h

theorem move_of_pending {pending : Pending} (underway : s.context.pending = some pending)
    (h : s.step.Gives s') : Move s s' := by
  obtain ⟨context, table, functions, decls⟩ := s
  obtain ⟨base, declarators, semicolon⟩ := pending
  simp only [State.step, underway, gives_bind, gives_pure] at h
  obtain ⟨⟨next, table'⟩, h, rfl⟩ := h
  cases declarators with
  | nil =>
    simp only [Pending.step, gives_bind, gives_requireMark, gives_pure, Prod.mk.injEq] at h
    obtain ⟨_, ⟨place, rfl⟩, rfl, rfl⟩ := h
    exact .leaveVars underway
  | cons declarator rest =>
    simp only [Pending.step, gives_bind, gives_pure, Prod.mk.injEq] at h
    obtain ⟨_, declared, rfl, rfl⟩ := h
    exact .declarator underway declared

/-- A step that passes is one of the moves, so that what all steps keep is proved by cases of these. -/
theorem move_of_gives (h : s.step.Gives s') : Move s s' := by
  cases underway : s.context.pending with
  | some pending => exact move_of_pending underway h
  | none =>
    obtain ⟨context, table, functions, decls⟩ := s
    simp only [State.step, underway] at h
    cases context with
    | global pending =>
      obtain rfl : pending = none := underway
      cases decls with
      | nil =>
        obtain rfl := gives_pure.mp h
        exact .finished
      | cons decl decls => exact move_of_enter h
    | struct index name pending members closing semicolon =>
      obtain rfl : pending = none := underway
      cases members with
      | nil =>
        simp only [State.proceed, gives_bind, gives_requireMark, gives_pure] at h
        obtain ⟨_, ⟨closing, rfl⟩, _, ⟨semicolon, rfl⟩, rfl⟩ := h
        exact .leaveStruct
      | cons decl members =>
        simp only [State.proceed, gives_bind, gives_pure] at h
        obtain ⟨pending, entered, rfl⟩ := h
        exact .enterMembers entered
    | params index scope params closing body =>
      cases params with
      | nil =>
        simp only [State.proceed, gives_bind, gives_requireMark, gives_require, gives_pure] at h
        obtain ⟨_, ⟨closing, rfl⟩, block, rfl, rfl⟩ := h
        exact .enterBody
      | cons slot params =>
        simp only [State.proceed, gives_bind, gives_pure] at h
        obtain ⟨table', declared, rfl⟩ := h
        exact .parameter declared
    | body index scope pending tasks closing =>
      obtain rfl : pending = none := underway
      cases tasks with
      | nil =>
        simp only [State.proceed, gives_bind, gives_requireMark, gives_pure] at h
        obtain ⟨_, ⟨closing, rfl⟩, rfl⟩ := h
        exact .leaveFunction
      | cons task tasks =>
        simp only [State.proceed, gives_bind, gives_pure] at h
        obtain ⟨⟨pending, next⟩, did, rfl⟩ := h
        exact .task did

end

/-! ### Transitions -/

@[simp] theorem site_setPending (context : Context) (pending : Option Pending) :
    (context.setPending pending).site = context.site := by
  cases context <;> rfl

variable {s s' : State}

/-- Wherever there can be a declaration of variables, declaring one is a transition. -/
theorem transition_declare {context : Context} {pending : Pending}
    (underway : context.pending = some pending) {base : Base} {declarator : Declarator}
    {table table' : SymbolTable} (functions : Nat)
    (h : (declarator.declare context.region base table).Gives table') :
    ∃ name, declarator.name = .found name ∧
      Transition ⟨context.site, table.symbols, functions⟩ [⟨context.role, name⟩]
        ⟨context.site, table'.symbols, functions⟩ := by
  obtain ⟨name, ty, found, -, declared⟩ := Declarator.gives_declare.mp h
  refine ⟨name, found, ?_⟩
  have symbols := Region.symbols_declare declared
  cases context with
  | global =>
    obtain ⟨fresh, same⟩ := symbols
    rw [same]
    exact .globalVar fresh rfl
  | struct =>
    rw [symbols]
    exact .member (Region.freshMember_of_gives declared) rfl
  | params => cases underway
  | body =>
    obtain ⟨fresh, same⟩ := symbols
    rw [same]
    exact .localVar fresh rfl

theorem transition_step (h : s.step.Gives s') : Transition s.core s.declares s'.core := by
  cases move_of_gives h with
  | @declarator context table _ functions _ _ declarator _ _ underway declared =>
    obtain ⟨name, found, transition⟩ := transition_declare underway functions declared
    obtain ⟨slot, array, initializer⟩ := declarator
    obtain rfl : slot = .found name := found
    simpa [State.core, State.declares, underway] using transition
  | leaveVars underway =>
    simpa [State.core, State.declares, underway] using .stay
  | enterStruct declared =>
    obtain ⟨fresh, rfl⟩ := SymbolTable.gives_declare.mp declared
    exact .enterStruct fresh rfl rfl
  | enterFunction resolved declared =>
    obtain ⟨fresh, rfl⟩ := SymbolTable.gives_declare.mp declared
    exact .enterFunction fresh rfl rfl
  | finished | enterVars | enterMembers | task => exact .stay
  | leaveStruct => exact .leaveStruct
  | @parameter index scope _ _ _ _ table _ functions _ declared =>
    obtain ⟨⟨base, _, array⟩, _, name, extent, rfl, -, rfl, -, fresh, rfl⟩ :=
      Param.gives_declare.mp declared
    have transition : Transition ⟨.params index scope, table.symbols, functions⟩
        [⟨.parameter scope.depth, name⟩] _ := .parameter fresh rfl
    simpa [State.core, Context.site, State.declares, Context.pending] using transition
  | enterBody => exact .enterBody
  | leaveFunction => exact .leaveFunction

end Machine

end PlainC
