import PlainC.Proofs.Declaring.Redefinition
import PlainC.Proofs.Machine.Resolution
import Mathlib.Data.List.DropRight

set_option autoImplicit false

/-!
Names that are taken. A name is refused just if it was declared before in its own region: at the top
level, in the same function, or in the same struct.
-/

namespace PlainC

open Checked

namespace SymbolTable

variable {table : SymbolTable} {name : Name} {symbol : Symbol}

/-- Among distinct symbols the one of a name and a depth is found. -/
theorem findAtDepth?_of_mem (distinct : Machine.Distinct table.symbols)
    (mem : symbol ∈ table.symbols) : table.findAtDepth? symbol.name symbol.depth = some symbol := by
  obtain ⟨before, behind, same⟩ := List.append_of_mem mem
  refine findLast?_iff.mpr ⟨_, before, behind, same, rfl, by simp, fun other otherMem taken => ?_⟩
  rw [same] at distinct
  have apart := (List.pairwise_cons.mp (List.pairwise_append.mp distinct).2.1).1 other otherMem
  simp only [Bool.and_eq_true, decide_eq_true_eq] at taken
  exact apart ⟨taken.1.symm, taken.2.symm⟩

theorem declare_of_taken (distinct : Machine.Distinct table.symbols) {other : Symbol}
    (mem : other ∈ table.symbols) (sameName : other.name = symbol.name)
    (sameDepth : other.depth = symbol.depth) :
    table.declare name symbol = Checked.redefined name other.line := by
  rw [declare_eq, ← sameName, ← sameDepth, findAtDepth?_of_mem distinct mem]

theorem gives_of_fresh (fresh : Fresh table.symbols symbol) :
    ∃ table', (table.declare name symbol).Gives table' :=
  ⟨_, gives_declare.mpr ⟨fresh, rfl⟩⟩

end SymbolTable

namespace Machine

open SymbolTable (Fresh FreshMember externals)

/-! ### What is taken -/

/-- Whether names can be declared inside of what is declared. -/
def Role.opens : Role → Bool
  | struct | function _ => true
  | globalVar | member _ | parameter _ | localVar _ => false

/-- What was declared since the last struct or function began. In the middle of one these are the
members, or the parameters and variables in all of its blocks. -/
def sinceOpened (past : List Declaration) : List Declaration :=
  past.rtakeWhile fun decl => !decl.role.opens

/-- The name of a declaration is taken in its region, on a line. At the top level this is done by
external functions, which have no line, and by all that was declared there; inside of a struct or
function by what was declared since it began. -/
inductive Declaration.TakenOn (past : List Declaration) (decl : Declaration) : Nat → Prop
  | external {symbol : Symbol} : decl.role.isGlobal = true → symbol ∈ externals →
      symbol.name = decl.name.value → TakenOn past decl symbol.line
  | global {other : Declaration} : decl.role.isGlobal = true → other ∈ past →
      other.role.isGlobal = true → other.name.value = decl.name.value →
      TakenOn past decl other.name.place.line
  | inner {other : Declaration} : decl.role.isGlobal = false → other ∈ sinceOpened past →
      other.name.value = decl.name.value → TakenOn past decl other.name.place.line

/-- The next step registers a name, if it is not taken: all that comes before it is accepted. This
is the size and the initializer of a variable, for a member also that its type is not the struct
itself, the result type of a function, and the type of a parameter. -/
inductive State.Registers (s : State) : Declaration → Prop
  | declarator {pending : Pending} {declarator : Declarator} {rest : List Declarator} {name : Name}
      {ty : Ty} : s.context.pending = some pending → pending.declarators = declarator :: rest →
      declarator.name = .found name →
      (declarator.type s.context.region s.table name pending.base).Gives ty →
      (∀ index, s.context.role = .member index → ty.base ≠ .struct index) →
      Registers s ⟨s.context.role, name⟩
  | struct {word opening : Place} {name : Name} {members : List VarDecl}
      {closing semicolon : Slot Place} {decls : List Decl} : s.context = .global none →
      s.decls = .struct word name opening members closing semicolon :: decls →
      Registers s ⟨.struct, name⟩
  | function {result : ResultType} {name : Name} {opening : Place}
      {params : Option (Separated (Slot Param))} {closing : Slot Place} {body : Slot Block}
      {decls : List Decl} {ty : Ty} : s.context = .global none →
      s.decls = .function result name opening params closing body :: decls →
      (result.resolve s.table).Gives ty → Registers s ⟨.function (s.functions + 1), name⟩
  | parameter {index : Nat} {scope : FunctionScope} {param : Param} {params : List (Slot Param)}
      {closing : Slot Place} {body : Slot Block} {name : Name} {base : Base} {extent : Extent} :
      s.context = .params index scope (.found param :: params) closing body →
      (param.base.resolve s.table).Gives base → param.name = .found name →
      param.array.extent.Gives extent → Registers s ⟨.parameter scope.depth, name⟩

/-- The fault of a declaration whose name is taken on a line. -/
def Declaration.refusal (decl : Declaration) (line : Nat) : Fault :=
  ⟨.violation (.redefinition decl.name.value line), decl.name.place⟩

/-- Names are refused where they are taken, with the line if there is one, and nowhere else. -/
structure State.RefusesTaken (s : State) (past : List Declaration) : Prop where
  taken : ∀ decl line, s.Registers decl → decl.TakenOn past line →
    s.step.result = .error (decl.refusal line)
  free : ∀ decl, s.Registers decl → (∀ line, ¬decl.TakenOn past line) → ∃ s', s.step.Gives s'
  only : ∀ fault, s.step.result = .error fault → fault.IsRedefinition →
    ∃ decl line, s.Registers decl ∧ decl.TakenOn past line ∧ fault = decl.refusal line
  message : ∀ decl line, s.Registers decl → decl.TakenOn past line → 0 < line →
    (decl.refusal line).diagnostic.complaint =
      .semantic ("symbol redefinition: " ++ decl.name.value ++
        (" (previously declared on line " ++ toString line ++ ")"))

/-! ### What is declared inside -/

theorem sinceOpened_append {past : List Declaration} {decl : Declaration}
    (inner : decl.role.opens = false) :
    sinceOpened (past ++ [decl]) = sinceOpened past ++ [decl] :=
  List.rtakeWhile_concat_pos _ _ _ (by simp [inner])

theorem sinceOpened_opened {past : List Declaration} {decl : Declaration}
    (opened : decl.role.opens = true) : sinceOpened (past ++ [decl]) = [] :=
  List.rtakeWhile_concat_neg _ _ _ (by simp [opened])

/-- What is declared in the struct or function that the machine is in, is what was declared since it
began, and the names of members are distinct. -/
def Core.Inner (past : List Declaration) (core : Core) : Prop :=
  match core.site with
  | .global => True
  | .struct index => ∃ owner, core.symbols[index]? = some owner ∧
      owner.members.map Symbol.entry = (sinceOpened past).map Declaration.entry ∧
      owner.members.Pairwise fun first second => first.name ≠ second.name
  | .params _ scope | .body _ scope =>
      past.filter (fun decl => decl.role.isOwn (some scope.depth)) = sinceOpened past

section

variable {past : List Declaration} {symbols : List Symbol} {functions index : Nat}

theorem Core.Inner.member {name : Name} {member : Symbol}
    (inner : Core.Inner past ⟨.struct index, symbols, functions⟩)
    (fresh : FreshMember symbols index member)
    (entry : member.entry = Declaration.entry ⟨.member index, name⟩) :
    Core.Inner (past ++ [⟨.member index, name⟩]) ⟨.struct index, symbols.modify index fun symbol =>
      { symbol with members := symbol.members ++ [member] }, functions⟩ := by
  obtain ⟨owner, found, entries, distinct⟩ := inner
  refine ⟨{ owner with members := owner.members ++ [member] }, ?_, ?_, ?_⟩
  · simp only at found
    simp [found]
  · rw [sinceOpened_append rfl]
    simp [entries, entry]
  · refine List.pairwise_append.mpr ⟨distinct, List.pairwise_singleton .., ?_⟩
    intro other mem _ new
    obtain rfl := List.mem_singleton.mp new
    exact fresh owner found other mem

theorem Core.Inner.own {depth : Nat} {decl : Declaration} (own : decl.role.isOwn (some depth) = true)
    (inner : past.filter (fun decl => decl.role.isOwn (some depth)) = sinceOpened past) :
    (past ++ [decl]).filter (fun decl => decl.role.isOwn (some depth)) =
      sinceOpened (past ++ [decl]) := by
  have closed : decl.role.opens = false := by
    obtain ⟨role, name⟩ := decl
    cases role <;> simp_all [Role.isOwn, Role.opens]
  rw [sinceOpened_append closed, List.filter_append, inner]
  simp [own]

/-- One step keeps apart what is declared inside. -/
theorem Core.Inner.step {core core' : Core} {declared : List Declaration}
    (inv : Invariant past core) (inner : core.Inner past) (h : Transition core declared core') :
    core'.Inner (past ++ declared) := by
  cases h with
  | stay =>
    rw [List.append_nil]
    exact inner
  | globalVar | leaveStruct | leaveFunction => trivial
  | @enterStruct symbols functions symbol name fresh entry members =>
    refine ⟨symbol, by simp, ?_, ?_⟩
    · rw [sinceOpened_opened rfl, members]
      rfl
    · simp [members]
  | member fresh entry => exact inner.member fresh entry
  | @enterFunction symbols functions symbol name fresh entry args =>
    change List.filter _ _ = _
    rw [sinceOpened_opened rfl, List.filter_append, List.append_eq_nil_iff]
    refine ⟨List.filter_eq_nil_iff.mpr fun decl mem own => ?_, by simp [Role.isOwn]⟩
    have le := inv.below decl mem
    rw [depth_of_isOwn own] at le
    exact absurd le (Nat.not_succ_le_self functions)
  | parameter fresh entry => exact Core.Inner.own (by simp [Role.isOwn]) inner
  | enterBody =>
    rw [List.append_nil]
    exact inner
  | localVar fresh entry => exact Core.Inner.own (by simp [Role.isOwn]) inner

end

theorem Reachable.inner {decls : List Decl} {past : List Declaration} {s : State}
    (h : Reachable decls past s) : s.core.Inner past := by
  induction h with
  | start => trivial
  | step reachable given ih => exact Core.Inner.step reachable.invariant ih (transition_step given)

/-! ### Registering -/

/-- A registration is decided by the name, which must be new to some symbols. -/
structure DecidedBy (rivals : Symbol → Prop) (name : Name) (register : Checked SymbolTable) :
    Prop where
  taken : ∀ symbol, rivals symbol → symbol.name = name.value →
    register.result = .error ⟨.violation (.redefinition name.value symbol.line), name.place⟩
  free : (∀ symbol, rivals symbol → symbol.name ≠ name.value) → ∃ table, register.Gives table

section

variable {table : SymbolTable} {name : Name}

theorem decidedBy_declare (distinct : Distinct table.symbols) (symbol : Symbol)
    (named : symbol.name = name.value) : DecidedBy
      (fun other => other ∈ table.symbols ∧ other.depth = symbol.depth) name
      (table.declare name symbol) := by
  refine ⟨?_, fun free => ?_⟩
  · rintro other ⟨mem, sameDepth⟩ sameName
    rw [SymbolTable.declare_of_taken distinct mem (sameName.trans named.symm) sameDepth]
    rfl
  · refine SymbolTable.gives_of_fresh fun other mem taken => ?_
    exact free other ⟨mem, taken.2⟩ (taken.1.trans named)

theorem decidedBy_member (name : Name) (struct : String) {index : Nat} {ty : Ty} {owner : Symbol}
    (found : table.symbols[index]? = some owner)
    (distinct : owner.members.Pairwise fun first second => first.name ≠ second.name)
    (apart : ty.base ≠ .struct index) : DecidedBy
      (fun other => ∃ owner, table.symbols[index]? = some owner ∧ other ∈ owner.members) name
      ((Region.members index struct).declare table name ty) := by
  refine ⟨?_, fun free => ?_⟩
  · rintro other ⟨_, found', mem⟩ sameName
    obtain rfl := Option.some.inj (found.symm.trans found')
    have first : owner.member? name.value = some other := by
      obtain ⟨before, behind, same⟩ := List.append_of_mem mem
      refine List.find?_eq_some_iff_append.mpr ⟨by simpa using sameName, before, behind, same, ?_⟩
      intro earlier earlierMem
      rw [same] at distinct
      have unlike := (List.pairwise_append.mp distinct).2.2 earlier earlierMem other (by simp)
      simpa [← sameName] using unlike
    simp only [Region.declare, apart, if_false, SymbolTable.get?, found, Option.bind_some, first]
    rfl
  · have none : owner.member? name.value = none :=
      List.find?_eq_none.mpr fun other mem => by simpa using free other ⟨owner, found, mem⟩
    simp [Region.declare, apart, SymbolTable.get?, found, none]

end

/-- The symbols to which the name of a declaration must be new. -/
def State.Rival (s : State) (role : Role) (symbol : Symbol) : Prop :=
  match role with
  | .member index => ∃ owner, s.table.symbols[index]? = some owner ∧ symbol ∈ owner.members
  | role => symbol ∈ s.table.symbols ∧ symbol.depth = role.depth

section

variable {decls : List Decl} {past : List Declaration} {s : State} {decl : Declaration}

/-- The next step registers a name, and passes just if this does. -/
structure State.RegistersBy (s : State) (decl : Declaration) (register : Checked SymbolTable) :
    Prop where
  decided : DecidedBy (s.Rival decl.role) decl.name register
  step : ∃ rest : SymbolTable → Checked State, s.step.result = (register >>= rest).result ∧
    ∀ table, ∃ s', (rest table).Gives s'

/-- At the top level the name of a struct is looked up first, which finds all that is taken. -/
theorem decidedBy_find {table : SymbolTable} (distinct : Distinct table.symbols)
    (outside : ∀ symbol ∈ table.symbols, symbol.depth = 0) {name : Name} (symbol : Symbol)
    (named : symbol.name = name.value) (depth : symbol.depth = 0) :
    DecidedBy (fun other => other ∈ table.symbols ∧ other.depth = 0) name
      (match table.find? name.value with
        | some previous => Checked.redefined name previous.line
        | none => table.declare name symbol) := by
  refine ⟨?_, fun free => ?_⟩
  · rintro other ⟨mem, -⟩ sameName
    have parts : table.symbols = [] ++ table.symbols ++ [] := by simp
    have found := SymbolTable.find?_of_mem parts distinct outside mem nofun
    rw [← sameName, found]
    simp only [Checked.redefined, sameName]
    rfl
  · cases found : table.find? name.value with
    | some previous =>
      obtain ⟨_, before, behind, same, -, previousName, -⟩ := SymbolTable.find?_iff.mp found
      have mem : previous ∈ table.symbols := by simp [same]
      exact absurd previousName (free previous ⟨mem, outside previous mem⟩)
    | none =>
      rw [← depth] at free
      exact (decidedBy_declare distinct symbol named).free free

theorem State.Registers.exists_register (h : Reachable decls past s) (registers : s.Registers decl) :
    ∃ register, s.RegistersBy decl register := by
  have inv := h.invariant
  have inner := h.inner
  have isScoped := h.isScoped
  obtain ⟨context, table, functions, decls⟩ := s
  cases registers with
  | @declarator pending declarator rest name ty underway next found typed apart =>
    refine ⟨context.region.declare table name ty, ?_, fun table =>
      pure ⟨context.setPending (some { pending with declarators := rest }), table, functions, decls⟩,
      ?_, fun table => ⟨_, Checked.gives_pure.mpr rfl⟩⟩
    · cases context with
      | global => exact decidedBy_declare inv.distinct (Region.topLevel.variableSymbol name ty) rfl
      | struct index struct =>
        obtain ⟨owner, found, -, distinct⟩ := inner
        exact decidedBy_member name struct found distinct (apart index rfl)
      | params => cases underway
      | body index scope =>
        exact decidedBy_declare inv.distinct ((Region.body scope.depth).variableSymbol name ty) rfl
    · simp only [State.step, underway, Pending.step, next, Declarator.declare, found,
        Checked.require, pure_bind, bind_assoc]
      exact result_bind_of_gives typed _
  | @struct word opening name members closing semicolon rest here next =>
    obtain rfl : context = .global none := here
    obtain rfl : decls = _ := next
    refine ⟨_, decidedBy_find inv.distinct isScoped
      (topLevelSymbol name .struct (.struct table.size)) rfl rfl, fun table' =>
      pure ⟨.struct table.size name.value none members closing semicolon, table', functions, rest⟩,
      ?_, fun table => ⟨_, Checked.gives_pure.mpr rfl⟩⟩
    simp only [State.step, Context.pending, State.proceed, State.enter]
    cases table.find? name.value <;> rfl
  | @function result name opening params closing body rest ty here next resolved =>
    obtain rfl : context = .global none := here
    obtain rfl : decls = _ := next
    refine ⟨_, decidedBy_declare inv.distinct (topLevelSymbol name .function ty) rfl,
      fun table' => pure ⟨.params table.size ⟨name.value, ty, functions + 1⟩
        ((params.map Separated.toList).getD []) closing body, table', functions + 1, rest⟩,
      ?_, fun table => ⟨_, Checked.gives_pure.mpr rfl⟩⟩
    simp only [State.step, Context.pending, State.proceed, State.enter]
    rw [result_bind_of_gives result.gives_noteStruct]
    exact result_bind_of_gives resolved _
  | @parameter index scope param params closing body name base extent here resolved found sized =>
    obtain rfl : context = _ := here
    refine ⟨_, decidedBy_declare inv.distinct (Param.symbol scope.depth name base extent) rfl,
      fun table' => pure ⟨.params index scope params closing body,
        table'.addArg index (Param.symbol scope.depth name base extent), functions, decls⟩,
      ?_, fun table => ⟨_, Checked.gives_pure.mpr rfl⟩⟩
    simp only [State.step, Context.pending, State.proceed, Param.declare, Checked.require,
      pure_bind, bind_assoc]
    rw [result_bind_of_gives resolved, found]
    exact result_bind_of_gives sized _

/-! ### What is taken among the symbols -/

theorem exists_symbol_iff {symbols : List Symbol} {declared : List Declaration}
    (entries : symbols.map Symbol.entry = declared.map Declaration.entry) {name : String}
    {line : Nat} : (∃ symbol ∈ symbols, symbol.name = name ∧ symbol.line = line) ↔
      ∃ other ∈ declared, other.name.value = name ∧ other.name.place.line = line := by
  have inSymbols : (∃ symbol ∈ symbols, symbol.name = name ∧ symbol.line = line) ↔
      ∃ entry ∈ symbols.map Symbol.entry, entry.name = name ∧ entry.line = line := by
    simp [Symbol.entry]
  have inDeclared : (∃ other ∈ declared, other.name.value = name ∧ other.name.place.line = line) ↔
      ∃ entry ∈ declared.map Declaration.entry, entry.name = name ∧ entry.line = line := by
    simp [Declaration.entry]
  rw [inSymbols, inDeclared, entries]

/-- Where the machine is when it registers a name. -/
theorem State.Registers.site (registers : s.Registers decl) :
    decl.role.isGlobal = true ∧ s.core.site = .global ∨
    (∃ index, decl.role = .member index ∧ s.core.site = .struct index) ∨
    ∃ depth, decl.role.isOwn (some depth) = true ∧ s.core.site.depth? = some depth := by
  obtain ⟨context, table, functions, decls⟩ := s
  cases registers with
  | declarator underway next found typed apart =>
    cases context with
    | global => exact .inl ⟨rfl, rfl⟩
    | struct index => exact .inr (.inl ⟨index, rfl, rfl⟩)
    | params => cases underway
    | body index scope => exact .inr (.inr ⟨scope.depth, by simp [Context.role, Role.isOwn], rfl⟩)
  | struct here next =>
    obtain rfl : context = .global none := here
    exact .inl ⟨rfl, rfl⟩
  | function here next resolved =>
    obtain rfl : context = .global none := here
    exact .inl ⟨rfl, rfl⟩
  | @parameter index scope param params closing body name base extent here =>
    obtain rfl : context = _ := here
    exact .inr (.inr ⟨scope.depth, by simp [Role.isOwn], rfl⟩)

/-- At the top level everything is taken that is in the table. -/
theorem Reachable.takenOn_global (h : Reachable decls past s) (outside : s.core.site = .global)
    (isGlobal : decl.role.isGlobal = true) {line : Nat} : decl.TakenOn past line ↔
      ∃ symbol, s.Rival decl.role symbol ∧ symbol.name = decl.name.value ∧ symbol.line = line := by
  obtain ⟨globals, same, entries⟩ := h.invariant.globals_of_none (congrArg Site.depth? outside)
  change s.table.symbols = _ at same
  have zero := depth_globals entries
  have rival (symbol : Symbol) : s.Rival decl.role symbol ↔ symbol ∈ externals ++ globals := by
    have all : symbol ∈ externals ++ globals ∧ symbol.depth = 0 ↔ symbol ∈ externals ++ globals :=
      and_iff_left_of_imp (zero symbol)
    rw [← all, ← same, ← depth_of_isGlobal isGlobal]
    cases role : decl.role <;> simp_all [State.Rival, Role.isGlobal]
  constructor
  · intro taken
    cases taken with
    | external _ mem named =>
      exact ⟨_, (rival _).mpr (List.mem_append_left _ mem), named, rfl⟩
    | @global other _ mem otherGlobal named =>
      obtain ⟨symbol, mem, named, line⟩ := (exists_symbol_iff entries).mpr
        ⟨other, List.mem_filter.mpr ⟨mem, otherGlobal⟩, named, rfl⟩
      exact ⟨symbol, (rival _).mpr (List.mem_append_right _ mem), named, line⟩
    | inner notGlobal => simp [isGlobal] at notGlobal
  · rintro ⟨symbol, isRival, named, rfl⟩
    rcases List.mem_append.mp ((rival symbol).mp isRival) with mem | mem
    · exact .external isGlobal mem named
    · obtain ⟨other, mem, named, line⟩ := (exists_symbol_iff entries).mp ⟨symbol, mem, named, rfl⟩
      obtain ⟨mem, otherGlobal⟩ := List.mem_filter.mp mem
      exact line ▸ .global isGlobal mem otherGlobal named

/-- Inside of a struct or function everything is taken that was declared since it began. -/
theorem Declaration.takenOn_inner (notGlobal : decl.role.isGlobal = false) {line : Nat} :
    decl.TakenOn past line ↔ ∃ other ∈ sinceOpened past, other.name.value = decl.name.value ∧
      other.name.place.line = line := by
  constructor
  · intro taken
    cases taken with
    | external isGlobal => simp [isGlobal] at notGlobal
    | global isGlobal => simp [isGlobal] at notGlobal
    | @inner other _ mem named => exact ⟨other, mem, named, rfl⟩
  · rintro ⟨other, mem, named, rfl⟩
    exact .inner notGlobal mem named

/-- The symbols of the depth of a function are its parameters and variables. -/
theorem Reachable.mem_own (h : Reachable decls past s) {depth : Nat}
    (inside : s.core.site.depth? = some depth) : ∃ own : List Symbol,
      own.map Symbol.entry = (sinceOpened past).map Declaration.entry ∧
      ∀ symbol, symbol ∈ own ↔ symbol ∈ s.table.symbols ∧ symbol.depth = depth := by
  have inner := h.inner
  obtain ⟨globals, own, same, entries, owned, holds⟩ := h.invariant.split
  change s.table.symbols = _ at same
  have zero := depth_globals entries
  rw [inside] at owned
  have positive : 0 < depth ∧
      past.filter (fun decl => decl.role.isOwn (some depth)) = sinceOpened past := by
    unfold Core.Inner at inner
    cases site : s.core.site with
    | global | struct =>
      rw [site] at inside
      cases inside
    | params index scope | body index scope =>
      rw [site] at inside holds inner
      obtain rfl := Option.some.inj inside
      obtain ⟨depth, positive, -⟩ := holds
      exact ⟨depth ▸ positive, inner⟩
  refine ⟨own, owned.trans (by rw [positive.2]), fun symbol => ?_⟩
  rw [same, List.mem_append]
  constructor
  · intro mem
    obtain ⟨other, -, isOwn, entry⟩ := exists_decl owned mem
    exact ⟨.inr mem, (congrArg Entry.depth entry).trans (depth_of_isOwn isOwn)⟩
  · rintro ⟨mem | mem, level⟩
    · exact absurd ((zero symbol mem).symm.trans level) positive.1.ne
    · exact mem

theorem Reachable.takenOn_iff (h : Reachable decls past s) (registers : s.Registers decl)
    {line : Nat} : decl.TakenOn past line ↔
      ∃ symbol, s.Rival decl.role symbol ∧ symbol.name = decl.name.value ∧ symbol.line = line := by
  rcases registers.site with ⟨isGlobal, outside⟩ | ⟨index, role, inside⟩ | ⟨depth, isOwn, inside⟩
  · exact h.takenOn_global outside isGlobal
  · have inner := h.inner
    unfold Core.Inner at inner
    rw [inside] at inner
    obtain ⟨owner, found, entries, -⟩ := inner
    have rival (symbol : Symbol) : s.Rival decl.role symbol ↔ symbol ∈ owner.members := by
      rw [role]
      exact ⟨fun ⟨_, found', mem⟩ => Option.some.inj (found'.symm.trans found) ▸ mem,
        fun mem => ⟨owner, found, mem⟩⟩
    rw [Declaration.takenOn_inner (by rw [role]; rfl), ← exists_symbol_iff entries]
    simp only [rival]
  · obtain ⟨own, entries, mem_own⟩ := h.mem_own inside
    have rival (symbol : Symbol) : s.Rival decl.role symbol ↔ symbol ∈ own := by
      rw [mem_own, ← depth_of_isOwn isOwn]
      cases role : decl.role <;> simp_all [State.Rival, Role.isOwn]
    have notGlobal : decl.role.isGlobal = false := by
      cases role : decl.role <;> simp_all [Role.isGlobal, Role.isOwn]
    rw [Declaration.takenOn_inner notGlobal, ← exists_symbol_iff entries]
    simp only [rival]

/-! ### Where a name can be refused -/

/-- If the fault is about a name that is taken, then the name is registered in the next step. -/
def State.Blames (s : State) (fault : Fault) : Prop :=
  fault.IsRedefinition → ∃ decl, s.Registers decl

theorem blames_of_other {α : Type} {x : Checked α} (other : Refuses Fault.IsOther x) :
    Refuses s.Blames x := other.mono fun _ isOther redefinition => absurd redefinition isOther

theorem blames_of_plain {α : Type} {x : Checked α} (plain : Plain x) :
    Refuses s.Blames x := blames_of_other (other_of_plain plain)

theorem blames_of_registers {α : Type} (registers : s.Registers decl) (x : Checked α) :
    Refuses s.Blames x := fun _ _ _ => ⟨decl, registers⟩

theorem VarDecl.plain_enter (table : SymbolTable) (varDecl : VarDecl) :
    Plain (varDecl.enter table) :=
  (varDecl.base.plain_resolve table).bind fun _ => .given _

theorem Task.other_step (scope : FunctionScope) (table : SymbolTable) (task : Task) :
    Refuses Fault.IsOther (task.step scope table) := by
  cases task with
  | items loops items =>
    cases items with
    | nil | stmt => exact refuses_pure _
    | decl decl rest =>
      exact (other_of_plain (VarDecl.plain_enter table decl)).bind fun _ _ => refuses_pure _
  | endBlock closing =>
    exact (other_of_plain (plain_requireMark _ _)).bind fun _ _ => refuses_pure _
  | stmt loops stmt =>
    cases stmt with
    | block => exact refuses_pure _
    | ifThen word condition | ifElse word condition | whileLoop word condition =>
      exact (other_of_plain (condition.plain_check table)).bind fun _ _ => refuses_pure _
    | forLoop word header =>
      exact (other_of_plain (header.plain_check table)).bind fun _ _ => refuses_pure _
    | breakLoop word semicolon =>
      refine Refuses.bind ?_ fun _ _ => refuses_pure _
      simp only [Stmt.check]
      refine refuses_unless (fun _ => Fault.isOther_violation nofun) fun _ => ?_
      exact (other_of_plain (plain_requireMark _ _)).bind fun _ _ => refuses_pure _
    | returnValue word value semicolon =>
      refine Refuses.bind ?_ fun _ _ => refuses_pure _
      simp only [Stmt.check]
      refine (other_of_plain (scope.plain_checkReturn table word value)).bind fun _ _ => ?_
      exact (other_of_plain (plain_requireMark _ _)).bind fun _ _ => refuses_pure _
    | empty semicolon =>
      refine Refuses.bind ?_ fun _ _ => refuses_pure _
      simp only [Stmt.check]
      exact refuses_pure _
    | expr expr semicolon =>
      refine Refuses.bind ?_ fun _ _ => refuses_pure _
      simp only [Stmt.check]
      refine (other_of_plain (expr.plain_checkUnused table)).bind fun _ _ => ?_
      exact (other_of_plain (plain_requireMark _ _)).bind fun _ _ => refuses_pure _
    | missing instead =>
      refine Refuses.bind ?_ fun _ _ => refuses_pure _
      simp only [Stmt.check]
      exact other_of_plain (plain_unexpected _ _)

theorem region_of_member {context : Context} {index : Nat} (member : context.role = .member index) :
    ∃ struct, context.region = .members index struct := by
  cases context with
  | struct index' name =>
    obtain rfl := Role.member.inj member
    exact ⟨name, rfl⟩
  | global | params | body => cases member

theorem State.blames_pending {pending : Pending} (underway : s.context.pending = some pending) :
    Refuses s.Blames (pending.step s.context.region s.table) := by
  unfold Pending.step
  split
  · exact (blames_of_plain (plain_requireMark _ _)).bind fun _ _ => refuses_pure _
  · rename_i declarator declarators next
    refine Refuses.bind ?_ fun _ _ => refuses_pure _
    refine (blames_of_plain (plain_require _ _)).bind fun name found => ?_
    refine (blames_of_plain (declarator.plain_type _ _ _ _)).bind fun ty typed => ?_
    rw [gives_require] at found
    by_cases apart : ∀ index, s.context.role = .member index → ty.base ≠ .struct index
    · exact blames_of_registers (.declarator underway next found typed apart) _
    · push Not at apart
      obtain ⟨index, member, own⟩ := apart
      obtain ⟨struct, region⟩ := region_of_member member
      rw [region]
      simp only [Region.declare, own, if_true]
      exact blames_of_plain (plain_violate rfl)

theorem State.blames_enter {rest : List Decl} {first : Decl} (here : s.context = .global none)
    (next : s.decls = first :: rest) : Refuses s.Blames ({ s with decls := rest }.enter first) := by
  cases first with
  | struct => exact blames_of_registers (.struct here next) _
  | function result name opening params closing body =>
    refine (refuses_of_gives result.gives_noteStruct).bind fun _ _ => ?_
    refine (blames_of_plain (result.plain_resolve s.table)).bind fun ty resolved => ?_
    exact blames_of_registers (.function here next resolved) _
  | vars tried decl =>
    refine (refuses_of_gives decl.base.gives_noteStruct).bind fun _ _ => ?_
    refine (blames_of_plain (decl.base.plain_resolve s.table)).bind fun _ _ => ?_
    refine (refuses_of_gives (gives_noteFunction _ _)).bind fun _ _ => ?_
    exact (blames_of_plain (VarDecl.plain_enter s.table decl)).bind fun _ _ => refuses_pure _
  | missing tried instead =>
    refine (refuses_of_gives (gives_noteFunction _ _)).bind fun _ _ => ?_
    exact blames_of_plain (plain_unexpected _ _)

theorem State.blames_step (s : State) : Refuses s.Blames s.step := by
  unfold State.step
  cases underway : s.context.pending with
  | some pending => exact (s.blames_pending underway).bind fun _ _ => refuses_pure _
  | none =>
    simp only [State.proceed]
    split
    · rename_i pending here
      obtain rfl : pending = none := (congrArg Context.pending here).symm.trans underway
      split
      · exact refuses_pure _
      · rename_i decl decls next
        exact s.blames_enter here next
    · exact (blames_of_plain (VarDecl.plain_enter s.table _)).bind fun _ _ => refuses_pure _
    · refine (blames_of_plain (plain_requireMark _ _)).bind fun _ _ => ?_
      exact (blames_of_plain (plain_requireMark _ _)).bind fun _ _ => refuses_pure _
    · rename_i index scope slot params closing body here
      refine Refuses.bind ?_ fun _ _ => refuses_pure _
      refine (blames_of_plain (plain_require _ slot)).bind fun param given => ?_
      refine (blames_of_plain (param.base.plain_resolve s.table)).bind fun base resolved => ?_
      refine (blames_of_plain (plain_require _ _)).bind fun name found => ?_
      refine (blames_of_plain param.array.plain_extent).bind fun extent sized => ?_
      obtain rfl := gives_require.mp given
      exact blames_of_registers (.parameter here resolved (gives_require.mp found) sized) _
    · refine (blames_of_plain (plain_requireMark _ _)).bind fun _ _ => ?_
      exact (blames_of_plain (plain_require _ _)).bind fun _ _ => refuses_pure _
    · exact (blames_of_other (Task.other_step _ s.table _)).bind fun _ _ => refuses_pure _
    · exact (blames_of_plain (plain_requireMark _ _)).bind fun _ _ => refuses_pure _

/-- In every state names are refused just where they are taken. -/
theorem Reachable.refusesTaken (h : Reachable decls past s) : s.RefusesTaken past := by
  have taken (decl : Declaration) (line : Nat) (registers : s.Registers decl)
      (isTaken : decl.TakenOn past line) : s.step.result = .error (decl.refusal line) := by
    obtain ⟨register, decided, rest, step, -⟩ := registers.exists_register h
    obtain ⟨symbol, rival, named, rfl⟩ := (h.takenOn_iff registers).mp isTaken
    rw [step, Logged.bind_of_error rest (decided.taken symbol rival named)]
    rfl
  have free (decl : Declaration) (registers : s.Registers decl)
      (isFree : ∀ line, ¬decl.TakenOn past line) : ∃ s', s.step.Gives s' := by
    obtain ⟨register, decided, rest, step, passes⟩ := registers.exists_register h
    obtain ⟨table, given⟩ := decided.free fun symbol rival named =>
      isFree symbol.line ((h.takenOn_iff registers).mpr ⟨symbol, rival, named, rfl⟩)
    obtain ⟨s', passed⟩ := passes table
    refine ⟨s', ?_⟩
    rw [Checked.Gives, step, result_bind_of_gives given]
    exact passed
  refine ⟨taken, free, fun fault failed redefinition => ?_, fun decl line _ _ known => ?_⟩
  · obtain ⟨decl, registers⟩ := s.blames_step fault failed redefinition
    by_cases isTaken : ∃ line, decl.TakenOn past line
    · obtain ⟨line, isTaken⟩ := isTaken
      have same := taken decl line registers isTaken
      exact ⟨decl, line, registers, isTaken, Except.error.inj (failed.symm.trans same)⟩
    · obtain ⟨s', passed⟩ := free decl registers (not_exists.mp isTaken)
      cases failed.symm.trans passed
  · exact congrArg Complaint.semantic (Violation.message_redefinition decl.name.value known)

end

end Machine

namespace Program

open Machine

/-- In every run a name that is about to be registered is refused just if it is taken in its own
region, and with the line of the earlier declaration; and a name is never refused elsewhere. The
region of a struct, function or variable at the top level is all of the top level, with the external
functions; that of a parameter or variable is its function, with all blocks; and that of a member is
its struct. -/
theorem ofTokens_refusesTaken (tokens : List Token) (ends : Ends tokens) :
    ∃ last : Lexeme, last.value = .endOfInput ∧
      (∀ program, (ofTokens tokens).result = .ok program ↔
        ∃ past s, Reachable (Decl.parseAll last (front tokens)).1 past s ∧ s.Done ∧
          program = ⟨s.table, (front tokens).length⟩) ∧
      (∀ fault, (ofTokens tokens).result = .error fault ↔
        ∃ past s, Reachable (Decl.parseAll last (front tokens)).1 past s ∧
          s.step.result = .error fault) ∧
      ∀ past s, Reachable (Decl.parseAll last (front tokens)).1 past s → s.RefusesTaken past := by
  obtain ⟨last, isEnd, accepts, refuses⟩ := ofTokens_iff_reachable ends
  exact ⟨last, isEnd, accepts, refuses, fun past s reachable => reachable.refusesTaken⟩

/-- In `int f(int f) { { int x; } char x; }` the parameter is not taken by its function, but the
second variable is by the first one. -/
theorem ofTokens_refusesTaken_block :
    ∃ last past s decl, Reachable (Decl.parseAll last (front
        [⟨.keyword .intKw, ⟨0, 3⟩, 1⟩, ⟨.identifier "f", ⟨4, 5⟩, 1⟩,
          ⟨.delimiter .leftParen, ⟨5, 6⟩, 1⟩, ⟨.keyword .intKw, ⟨6, 9⟩, 1⟩,
          ⟨.identifier "f", ⟨10, 11⟩, 1⟩, ⟨.delimiter .rightParen, ⟨11, 12⟩, 1⟩,
          ⟨.delimiter .leftBrace, ⟨13, 14⟩, 1⟩, ⟨.delimiter .leftBrace, ⟨15, 16⟩, 1⟩,
          ⟨.keyword .intKw, ⟨17, 20⟩, 1⟩, ⟨.identifier "x", ⟨21, 22⟩, 1⟩,
          ⟨.delimiter .semicolon, ⟨22, 23⟩, 1⟩, ⟨.delimiter .rightBrace, ⟨24, 25⟩, 1⟩,
          ⟨.keyword .charKw, ⟨26, 30⟩, 1⟩, ⟨.identifier "x", ⟨31, 32⟩, 1⟩,
          ⟨.delimiter .semicolon, ⟨32, 33⟩, 1⟩, ⟨.delimiter .rightBrace, ⟨34, 35⟩, 1⟩,
          ⟨.endOfInput, ⟨35, 35⟩, 1⟩])).1 past s ∧
      s.Registers decl ∧ decl.name = ⟨"x", ⟨13, ⟨31, 32⟩, 1⟩⟩ ∧ decl.TakenOn past 1 ∧
      s.step.result = .error (decl.refusal 1) := by
  obtain ⟨last, -, -, refuses, refusesTaken⟩ := ofTokens_refusesTaken
    [⟨.keyword .intKw, ⟨0, 3⟩, 1⟩, ⟨.identifier "f", ⟨4, 5⟩, 1⟩,
      ⟨.delimiter .leftParen, ⟨5, 6⟩, 1⟩, ⟨.keyword .intKw, ⟨6, 9⟩, 1⟩,
      ⟨.identifier "f", ⟨10, 11⟩, 1⟩, ⟨.delimiter .rightParen, ⟨11, 12⟩, 1⟩,
      ⟨.delimiter .leftBrace, ⟨13, 14⟩, 1⟩, ⟨.delimiter .leftBrace, ⟨15, 16⟩, 1⟩,
      ⟨.keyword .intKw, ⟨17, 20⟩, 1⟩, ⟨.identifier "x", ⟨21, 22⟩, 1⟩,
      ⟨.delimiter .semicolon, ⟨22, 23⟩, 1⟩, ⟨.delimiter .rightBrace, ⟨24, 25⟩, 1⟩,
      ⟨.keyword .charKw, ⟨26, 30⟩, 1⟩, ⟨.identifier "x", ⟨31, 32⟩, 1⟩,
      ⟨.delimiter .semicolon, ⟨32, 33⟩, 1⟩, ⟨.delimiter .rightBrace, ⟨34, 35⟩, 1⟩,
      ⟨.endOfInput, ⟨35, 35⟩, 1⟩] (by decide)
  obtain ⟨past, s, reachable, failed⟩ := (refuses
    ⟨.violation (.redefinition "x" 1), ⟨13, ⟨31, 32⟩, 1⟩⟩).mp rfl
  obtain ⟨decl, line, registers, isTaken, same⟩ :=
    (refusesTaken past s reachable).only _ failed ⟨"x", 1, rfl⟩
  obtain ⟨role, value, place⟩ := decl
  obtain ⟨⟨rfl, rfl⟩, rfl⟩ : (value = "x" ∧ line = 1) ∧ place = ⟨13, ⟨31, 32⟩, 1⟩ := by
    simpa [Declaration.refusal, eq_comm] using same
  exact ⟨last, past, s, _, reachable, registers, rfl, isTaken, failed⟩

end Program

end PlainC
