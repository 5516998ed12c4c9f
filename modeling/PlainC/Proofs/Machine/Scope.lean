import PlainC.Proofs.Machine.Transition

set_option autoImplicit false

/-!
The scopes: outside of functions the symbol table holds the external functions and what was declared
at the top level, and inside of a function, behind all that, the parameters of the function and then
its variables, at a depth that no other function has.
-/

namespace PlainC

namespace Machine

open SymbolTable (Fresh externals)

namespace Role

/-- Whether what is declared stays in the table. -/
def isGlobal : Role → Bool
  | globalVar | struct | function _ => true
  | member _ | parameter _ | localVar _ => false

/-- Whether what is declared is a parameter or variable of the function with a depth. -/
def isOwn (depth? : Option Nat) : Role → Bool
  | parameter depth | localVar depth => depth? = some depth
  | globalVar | struct | function _ | member _ => false

/-- The depth that a function gets. -/
def functionDepth? : Role → Option Nat
  | function depth => some depth
  | _ => none

end Role

/-- The depth of the parameters and variables of the function that the machine is in. -/
def Site.depth? : Site → Option Nat
  | global | struct _ => none
  | params _ scope | body _ scope => some scope.depth

/-- The depths of the functions so far. -/
def functionDepths (past : List Declaration) : List Nat :=
  past.filterMap fun decl => decl.role.functionDepth?

/-- The symbol is that of the function with an index, behind the others of the top level, and has
arguments. -/
structure IsFunction (index : Nat) (scope : FunctionScope) (globals : List Symbol)
    (function : Symbol) : Prop where
  last : ∃ before, globals = before ++ [function] ∧ index = externals.length + before.length
  name : function.name = scope.name
  ty : function.ty = scope.result
  cls : function.cls = .function
  args : ∀ arg ∈ function.args, arg.cls = .var ∧ arg.storage = .argument ∧ arg.depth = scope.depth

/-- What stands behind the symbols of the top level, at a place where the machine can be. -/
def Site.Holds (functions : Nat) (globals own : List Symbol) : Site → Prop
  | global => own = []
  | struct index => own = [] ∧ externals.length ≤ index
  | params index scope => scope.depth = functions ∧ 0 < functions ∧
      ∃ function, IsFunction index scope globals function ∧ own = function.args
  | body index scope => scope.depth = functions ∧ 0 < functions ∧
      ∃ function locals, IsFunction index scope globals function ∧ own = function.args ++ locals ∧
        ∀ symbol ∈ locals, symbol.cls = .var ∧ symbol.storage = .localVar ∧
          symbol.depth = scope.depth

/-- No name is declared twice at one depth. -/
def Distinct (symbols : List Symbol) : Prop :=
  symbols.Pairwise fun first second => ¬(first.name = second.name ∧ first.depth = second.depth)

/-- The symbols are the external functions, those of the top level, and those of the function that
the machine is in, each in the order of declaration. -/
structure Invariant (past : List Declaration) (core : Core) : Prop where
  split : ∃ globals own, core.symbols = externals ++ globals ++ own ∧
    globals.map Symbol.entry =
      (past.filter fun decl => decl.role.isGlobal).map Declaration.entry ∧
    own.map Symbol.entry =
      (past.filter fun decl => decl.role.isOwn core.site.depth?).map Declaration.entry ∧
    core.site.Holds core.functions globals own
  depths : functionDepths past = (List.range core.functions).map (· + 1)
  below : ∀ decl ∈ past, decl.role.depth ≤ core.functions
  distinct : Distinct core.symbols

theorem distinct_externals : Distinct externals := by
  unfold Distinct
  decide

theorem Distinct.append {symbols : List Symbol} {symbol : Symbol} (h : Distinct symbols)
    (fresh : Fresh symbols symbol) : Distinct (symbols ++ [symbol]) := by
  refine List.pairwise_append.mpr ⟨h, List.pairwise_singleton .., ?_⟩
  intro other mem _ same
  obtain rfl := List.mem_singleton.mp same
  exact fresh other mem

/-- Changing what is no part of the entry of a symbol. -/
theorem map_entry_modify {change : Symbol → Symbol}
    (keeps : ∀ symbol, (change symbol).entry = symbol.entry) (symbols : List Symbol) (index : Nat) :
    (symbols.modify index change).map Symbol.entry = symbols.map Symbol.entry := by
  induction symbols generalizing index with
  | nil => simp
  | cons symbol symbols ih => cases index <;> simp [keeps, ih]

theorem distinct_iff {symbols : List Symbol} : Distinct symbols ↔
    (symbols.map Symbol.entry).Pairwise fun first second =>
      ¬(first.name = second.name ∧ first.depth = second.depth) := by
  rw [List.pairwise_map]
  rfl

theorem Distinct.modify {symbols : List Symbol} (change : Symbol → Symbol)
    (keeps : ∀ symbol, (change symbol).entry = symbol.entry) (index : Nat) (h : Distinct symbols) :
    Distinct (symbols.modify index change) := by
  rw [distinct_iff, map_entry_modify keeps]
  exact distinct_iff.mp h

@[simp] theorem functionDepths_append (past : List Declaration) (decl : Declaration) :
    functionDepths (past ++ [decl]) = functionDepths past ++ decl.role.functionDepth?.toList := by
  rw [functionDepths, List.filterMap_append]
  cases depth : decl.role.functionDepth? <;> simp [functionDepths, depth]

theorem isOwn_none (role : Role) : role.isOwn none = false := by
  cases role <;> rfl

theorem filter_isOwn_none (past : List Declaration) :
    past.filter (fun decl => decl.role.isOwn none) = [] := by
  simp [isOwn_none]

theorem depth_of_isOwn {depth : Nat} {role : Role} (own : role.isOwn (some depth) = true) :
    role.depth = depth := by
  cases role <;> simp_all [Role.isOwn, Role.depth]

namespace Invariant

variable {past : List Declaration} {symbols : List Symbol} {functions : Nat}

/-- Where the machine is in no function, the symbols are those of the top level. -/
theorem globals_of_none {site : Site} (inv : Invariant past ⟨site, symbols, functions⟩)
    (outside : site.depth? = none) : ∃ globals, symbols = externals ++ globals ∧
      globals.map Symbol.entry =
        (past.filter fun decl => decl.role.isGlobal).map Declaration.entry := by
  obtain ⟨globals, own, rfl, entries, owned, -⟩ := inv.split
  rw [outside, filter_isOwn_none, List.map_nil, List.map_eq_nil_iff] at owned
  subst owned
  exact ⟨globals, List.append_nil _, entries⟩

theorem globalVar {symbol : Symbol} {name : Name}
    (inv : Invariant past ⟨.global, symbols, functions⟩) (fresh : Fresh symbols symbol)
    (entry : symbol.entry = Declaration.entry ⟨.globalVar, name⟩) :
    Invariant (past ++ [⟨.globalVar, name⟩]) ⟨.global, symbols ++ [symbol], functions⟩ := by
  obtain ⟨globals, rfl, entries⟩ := inv.globals_of_none rfl
  refine ⟨⟨globals ++ [symbol], [], by simp, ?_, ?_, rfl⟩, ?_, ?_, inv.distinct.append fresh⟩
  · simp [entries, entry, Role.isGlobal]
  · simp [Site.depth?, isOwn_none]
  · simpa [Role.functionDepth?] using inv.depths
  · simpa [or_imp, forall_and, Role.depth] using inv.below

theorem enterStruct {symbol : Symbol} {name : Name}
    (inv : Invariant past ⟨.global, symbols, functions⟩) (fresh : Fresh symbols symbol)
    (entry : symbol.entry = Declaration.entry ⟨.struct, name⟩) :
    Invariant (past ++ [⟨.struct, name⟩])
      ⟨.struct symbols.length, symbols ++ [symbol], functions⟩ := by
  obtain ⟨globals, rfl, entries⟩ := inv.globals_of_none rfl
  refine ⟨⟨globals ++ [symbol], [], by simp, ?_, ?_, rfl, ?_⟩, ?_, ?_, inv.distinct.append fresh⟩
  · simp [entries, entry, Role.isGlobal]
  · simp [Site.depth?, isOwn_none]
  · simp
  · simpa [Role.functionDepth?] using inv.depths
  · simpa [or_imp, forall_and, Role.depth] using inv.below

theorem member {index : Nat} {name : Name} (change : Symbol → Symbol)
    (keeps : ∀ symbol, (change symbol).entry = symbol.entry)
    (inv : Invariant past ⟨.struct index, symbols, functions⟩) :
    Invariant (past ++ [⟨.member index, name⟩])
      ⟨.struct index, symbols.modify index change, functions⟩ := by
  obtain ⟨globals, own, rfl, entries, owned, rfl, inside⟩ := inv.split
  obtain ⟨place, rfl⟩ := Nat.exists_eq_add_of_le inside
  have changed := inv.distinct.modify change keeps (externals.length + place)
  rw [List.append_nil, modify_append_right] at changed ⊢
  refine ⟨⟨globals.modify place change, [], by simp, ?_, ?_, rfl, inside⟩, ?_, ?_, changed⟩
  · simp [map_entry_modify keeps, entries, Role.isGlobal]
  · simp [Site.depth?, isOwn_none]
  · simpa [Role.functionDepth?] using inv.depths
  · simpa [or_imp, forall_and, Role.depth] using inv.below

theorem leaveStruct {index : Nat} (inv : Invariant past ⟨.struct index, symbols, functions⟩) :
    Invariant past ⟨.global, symbols, functions⟩ := by
  obtain ⟨globals, own, same, entries, owned, rfl, -⟩ := inv.split
  exact ⟨⟨globals, [], same, entries, owned, rfl⟩, inv.depths, inv.below, inv.distinct⟩

theorem enterFunction {symbol : Symbol} {name : Name}
    (inv : Invariant past ⟨.global, symbols, functions⟩) (fresh : Fresh symbols symbol)
    (entry : symbol.entry = Declaration.entry ⟨.function (functions + 1), name⟩)
    (args : symbol.args = []) :
    Invariant (past ++ [⟨.function (functions + 1), name⟩])
      ⟨.params symbols.length ⟨symbol.name, symbol.ty, functions + 1⟩, symbols ++ [symbol],
        functions + 1⟩ := by
  obtain ⟨globals, rfl, entries⟩ := inv.globals_of_none rfl
  have unused (decl : Declaration) (mem : decl ∈ past) :
      decl.role.isOwn (some (functions + 1)) = false := by
    refine Bool.eq_false_iff.mpr fun own => ?_
    have le := inv.below decl mem
    rw [depth_of_isOwn own] at le
    exact absurd le (Nat.not_succ_le_self functions)
  have cls : symbol.cls = .function := congrArg Entry.cls entry
  have isFunction : IsFunction (externals ++ globals).length ⟨symbol.name, symbol.ty, functions + 1⟩
      (globals ++ [symbol]) symbol :=
    ⟨⟨globals, rfl, List.length_append⟩, rfl, rfl, cls, by simp [args]⟩
  refine ⟨⟨globals ++ [symbol], [], by simp, ?_, ?_, rfl, Nat.succ_pos _, symbol, isFunction,
    args.symm⟩, ?_, ?_, inv.distinct.append fresh⟩
  · simp [entries, entry, Role.isGlobal]
  · simpa [Site.depth?, Role.isOwn] using unused
  · simp [Role.functionDepth?, inv.depths, List.range_succ]
  · have below (decl : Declaration) (mem : decl ∈ past) : decl.role.depth ≤ functions + 1 :=
      Nat.le_succ_of_le (inv.below decl mem)
    simpa [or_imp, forall_and, Role.depth] using below

/-- The declaration of a parameter changes the function, which the parameters stand behind. -/
theorem parameter {index : Nat} {scope : FunctionScope} {symbol : Symbol} {name : Name}
    (inv : Invariant past ⟨.params index scope, symbols, functions⟩) (fresh : Fresh symbols symbol)
    (entry : symbol.entry = Declaration.entry ⟨.parameter scope.depth, name⟩) :
    Invariant (past ++ [⟨.parameter scope.depth, name⟩])
      ⟨.params index scope, (symbols ++ [symbol]).modify index fun function =>
        { function with args := function.args ++ [symbol] }, functions⟩ := by
  obtain ⟨globals, _, rfl, entries, owned, depth, positive, function, isFunction, rfl⟩ := inv.split
  obtain ⟨before, rfl, rfl⟩ := isFunction.last
  have changed := (inv.distinct.append fresh).modify
    (fun function => { function with args := function.args ++ [symbol] }) (fun _ => rfl)
    (externals.length + before.length)
  have place : before.length = before.length + 0 := rfl
  simp only [List.append_assoc, List.cons_append, List.nil_append] at changed ⊢
  rw [modify_append_right, place, modify_append_right, List.modify_zero_cons] at changed ⊢
  have isArg : symbol.cls = .var ∧ symbol.storage = .argument ∧ symbol.depth = scope.depth :=
    ⟨congrArg Entry.cls entry, congrArg Entry.storage entry, congrArg Entry.depth entry⟩
  refine ⟨⟨before ++ [{ function with args := function.args ++ [symbol] }],
    function.args ++ [symbol], by simp, ?_, ?_, depth, positive, _,
    ⟨⟨before, rfl, rfl⟩, isFunction.name, isFunction.ty, isFunction.cls, ?_⟩, rfl⟩, ?_, ?_, changed⟩
  · simpa [Role.isGlobal, Symbol.entry] using entries
  · simpa [Site.depth?, Role.isOwn, entry] using owned
  · simpa [or_imp, forall_and, isArg] using isFunction.args
  · simpa [Role.functionDepth?] using inv.depths
  · simpa [or_imp, forall_and, Role.depth, depth] using inv.below

theorem enterBody {index : Nat} {scope : FunctionScope}
    (inv : Invariant past ⟨.params index scope, symbols, functions⟩) :
    Invariant past ⟨.body index scope, symbols, functions⟩ := by
  obtain ⟨globals, own, same, entries, owned, depth, positive, function, isFunction, args⟩ :=
    inv.split
  refine ⟨⟨globals, own, same, entries, owned, depth, positive, function, [], isFunction, ?_⟩,
    inv.depths, inv.below, inv.distinct⟩
  simp [args]

theorem localVar {index : Nat} {scope : FunctionScope} {symbol : Symbol} {name : Name}
    (inv : Invariant past ⟨.body index scope, symbols, functions⟩) (fresh : Fresh symbols symbol)
    (entry : symbol.entry = Declaration.entry ⟨.localVar scope.depth, name⟩) :
    Invariant (past ++ [⟨.localVar scope.depth, name⟩])
      ⟨.body index scope, symbols ++ [symbol], functions⟩ := by
  obtain ⟨globals, _, rfl, entries, owned, depth, positive, function, locals, isFunction, rfl,
    areLocal⟩ := inv.split
  have isLocal : symbol.cls = .var ∧ symbol.storage = .localVar ∧ symbol.depth = scope.depth :=
    ⟨congrArg Entry.cls entry, congrArg Entry.storage entry, congrArg Entry.depth entry⟩
  refine ⟨⟨globals, function.args ++ (locals ++ [symbol]), by simp, ?_, ?_, depth, positive,
    function, locals ++ [symbol], isFunction, rfl, ?_⟩, ?_, ?_, inv.distinct.append fresh⟩
  · simpa [Role.isGlobal] using entries
  · rw [← List.append_assoc, List.map_append, owned]
    simp [Site.depth?, Role.isOwn, entry]
  · simpa [or_imp, forall_and, isLocal] using areLocal
  · simpa [Role.functionDepth?] using inv.depths
  · simpa [or_imp, forall_and, Role.depth, depth] using inv.below

/-- At the end of a function everything behind it is taken back. -/
theorem leaveFunction {index : Nat} {scope : FunctionScope}
    (inv : Invariant past ⟨.body index scope, symbols, functions⟩) :
    Invariant past ⟨.global, symbols.take (index + 1), functions⟩ := by
  obtain ⟨globals, own, rfl, entries, -, -, -, function, locals, isFunction, -, -⟩ := inv.split
  obtain ⟨before, rfl, rfl⟩ := isFunction.last
  have released : (externals ++ (before ++ [function]) ++ own).take
      (externals.length + before.length + 1) = externals ++ (before ++ [function]) := by
    rw [List.take_append_of_le_length (by simp [Nat.add_assoc]), List.take_of_length_le]
    simp [Nat.add_assoc]
  have distinct := inv.distinct.sublist (List.take_sublist (externals.length + before.length + 1) _)
  rw [released] at distinct ⊢
  refine ⟨⟨before ++ [function], [], by simp, entries, ?_, rfl⟩, inv.depths, inv.below, distinct⟩
  simp [Site.depth?, isOwn_none]

/-- One step keeps the symbols in order. -/
theorem step {core core' : Core} {declared : List Declaration} (inv : Invariant past core)
    (h : Transition core declared core') : Invariant (past ++ declared) core' := by
  cases h with
  | stay => simpa using inv
  | globalVar fresh entry => exact inv.globalVar fresh entry
  | enterStruct fresh entry => exact inv.enterStruct fresh entry
  | member => exact inv.member _ fun _ => rfl
  | leaveStruct => simpa using inv.leaveStruct
  | enterFunction fresh entry args => exact inv.enterFunction fresh entry args
  | parameter fresh entry => exact inv.parameter fresh entry
  | enterBody => simpa using inv.enterBody
  | localVar fresh entry => exact inv.localVar fresh entry
  | leaveFunction => simpa using inv.leaveFunction

theorem start (decls : List Decl) : Invariant [] (start decls).core := by
  have initial : (Machine.start decls).core = ⟨.global, externals, 0⟩ := by
    rw [State.core, Machine.start, SymbolTable.symbols_initial]
    rfl
  rw [initial]
  exact ⟨⟨[], [], by simp, rfl, rfl, rfl⟩, rfl, List.forall_mem_nil _, distinct_externals⟩

end Invariant

/-- Every reachable state keeps the symbols in order. -/
theorem Reachable.invariant {decls : List Decl} {past : List Declaration} {s : State}
    (h : Reachable decls past s) : Invariant past s.core := by
  induction h with
  | start => exact Invariant.start decls
  | step _ given ih => exact ih.step (transition_step given)

end Machine

end PlainC
