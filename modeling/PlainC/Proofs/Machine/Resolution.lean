import PlainC.Proofs.Machine.Runs
import PlainC.Proofs.Machine.Scope
import PlainC.Proofs.Program.Front

set_option autoImplicit false

/-!
What names mean: in every state of the analysis a name means the parameter or variable of the
function that was declared so far, or else what was declared at the top level, or else an external
function.
-/

namespace PlainC

namespace SymbolTable

variable {table : SymbolTable} {name : String} {symbol : Symbol}

/-- Among symbols of one depth with distinct names each is found by its name, if that is not taken
behind them. -/
theorem find?_of_mem {front block behind : List Symbol} {depth : Nat}
    (same : table.symbols = front ++ block ++ behind) (distinct : Machine.Distinct block)
    (level : ∀ symbol ∈ block, symbol.depth = depth) (mem : symbol ∈ block)
    (free : ∀ other ∈ behind, other.name ≠ symbol.name) :
    table.find? symbol.name = some symbol := by
  obtain ⟨before, after, rfl⟩ := List.append_of_mem mem
  refine find?_iff.mpr ⟨_, front ++ before, after ++ behind, by simp [same], rfl, rfl, ?_⟩
  intro other otherMem sameName
  rcases List.mem_append.mp otherMem with inside | outside
  · have apart := (List.pairwise_cons.mp (List.pairwise_append.mp distinct).2.1).1 other inside
    refine apart ⟨sameName.symm, ?_⟩
    rw [level symbol mem, level other (by simp [inside])]
  · exact free other outside sameName

end SymbolTable

namespace Machine

open SymbolTable (externals)

/-- The depth of the function that the machine is in. -/
def State.depth? (s : State) : Option Nat := s.context.site.depth?

/-- The scopes of a state. Outside of functions everything has depth zero. Inside of a function so
has everything up to the function itself, and behind it stand its parameters, which are its
arguments, and then its variables, all of them of the depth that the function alone has. -/
def State.Scoped (s : State) (past : List Declaration) : Prop :=
  match s.context.function? with
  | none => ∀ symbol ∈ s.table.symbols, symbol.depth = 0
  | some (index, scope) =>
    (0 < scope.depth ∧ ∃ earlier, functionDepths past = earlier ++ [scope.depth] ∧
      scope.depth ∉ earlier) ∧
    ∃ outer function locals, s.table.symbols = outer ++ function :: (function.args ++ locals) ∧
      outer.length = index ∧ (∀ symbol ∈ outer, symbol.depth = 0) ∧
      (function.name = scope.name ∧ function.ty = scope.result ∧ function.cls = .function ∧
        function.depth = 0) ∧
      (∀ arg ∈ function.args, arg.cls = .var ∧ arg.storage = .argument ∧
        arg.depth = scope.depth) ∧
      ∀ symbol ∈ locals, symbol.cls = .var ∧ symbol.storage = .localVar ∧
        symbol.depth = scope.depth

/-- What a name means in a state: the parameter or variable of the function that has been declared,
and otherwise what has been declared at the top level, or the external function. It means nothing
else, and so no member of a struct and nothing in another function. -/
structure State.Resolves (s : State) (past : List Declaration) (name : String) : Prop where
  own : ∀ decl ∈ past, decl.role.isOwn s.depth? = true → decl.name.value = name →
    ∃ symbol, s.table.find? name = some symbol ∧ symbol.entry = decl.entry
  global : (∀ decl ∈ past, decl.role.isOwn s.depth? = true → decl.name.value ≠ name) →
    ∀ decl ∈ past, decl.role.isGlobal = true → decl.name.value = name →
      ∃ symbol, s.table.find? name = some symbol ∧ symbol.entry = decl.entry
  external : (∀ decl ∈ past, decl.role.isOwn s.depth? = true → decl.name.value ≠ name) →
    ∀ symbol ∈ externals, symbol.name = name → s.table.find? name = some symbol
  only : ∀ symbol, s.table.find? name = some symbol →
    (∃ decl ∈ past, (decl.role.isOwn s.depth? = true ∨ decl.role.isGlobal = true) ∧
      decl.name.value = name ∧ symbol.entry = decl.entry) ∨
    symbol ∈ externals ∧ symbol.name = name

/-! ### Depths -/

theorem depth_externals : ∀ symbol ∈ externals, symbol.depth = 0 := by
  decide

section

variable {past : List Declaration} {symbols : List Symbol} {p : Declaration → Bool}

theorem exists_decl (entries : symbols.map Symbol.entry = (past.filter p).map Declaration.entry)
    {symbol : Symbol} (mem : symbol ∈ symbols) :
    ∃ decl ∈ past, p decl = true ∧ symbol.entry = decl.entry := by
  have entry : symbol.entry ∈ (past.filter p).map Declaration.entry :=
    entries ▸ List.mem_map_of_mem mem
  obtain ⟨decl, found, same⟩ := List.mem_map.mp entry
  obtain ⟨inPast, passes⟩ := List.mem_filter.mp found
  exact ⟨decl, inPast, passes, same.symm⟩

theorem exists_symbol (entries : symbols.map Symbol.entry = (past.filter p).map Declaration.entry)
    {decl : Declaration} (mem : decl ∈ past) (passes : p decl = true) :
    ∃ symbol ∈ symbols, symbol.entry = decl.entry := by
  have entry : decl.entry ∈ symbols.map Symbol.entry :=
    entries ▸ List.mem_map_of_mem (List.mem_filter.mpr ⟨mem, passes⟩)
  exact List.mem_map.mp entry

end

theorem depth_of_isGlobal {role : Role} (global : role.isGlobal = true) : role.depth = 0 := by
  cases role <;> simp_all [Role.isGlobal, Role.depth]

theorem depth_globals {past : List Declaration} {globals : List Symbol}
    (entries : globals.map Symbol.entry =
      (past.filter fun decl => decl.role.isGlobal).map Declaration.entry) :
    ∀ symbol ∈ externals ++ globals, symbol.depth = 0 := by
  intro symbol mem
  rcases List.mem_append.mp mem with external | declared
  · exact depth_externals symbol external
  · obtain ⟨decl, -, global, entry⟩ := exists_decl entries declared
    exact (congrArg Entry.depth entry).trans (depth_of_isGlobal global)

theorem last_depth {past : List Declaration} {functions : Nat}
    (depths : functionDepths past = (List.range functions).map (· + 1)) (positive : 0 < functions) :
    ∃ earlier, functionDepths past = earlier ++ [functions] ∧ functions ∉ earlier := by
  obtain ⟨n, rfl⟩ := Nat.exists_eq_add_of_lt positive
  rw [Nat.zero_add] at depths ⊢
  refine ⟨(List.range n).map (· + 1), by rw [depths, List.range_succ]; simp, ?_⟩
  simp

/-- The parts of the table inside of a function. -/
theorem IsFunction.parts {index : Nat} {scope : FunctionScope} {globals : List Symbol}
    {function : Symbol} (isFunction : IsFunction index scope globals function)
    (locals : List Symbol) (zero : ∀ symbol ∈ externals ++ globals, symbol.depth = 0) :
    ∃ outer, externals ++ globals ++ (function.args ++ locals) =
        outer ++ function :: (function.args ++ locals) ∧
      outer.length = index ∧ (∀ symbol ∈ outer, symbol.depth = 0) ∧
      (function.name = scope.name ∧ function.ty = scope.result ∧ function.cls = .function ∧
        function.depth = 0) := by
  obtain ⟨before, rfl, rfl⟩ := isFunction.last
  refine ⟨externals ++ before, by simp, by simp, ?_, isFunction.name, isFunction.ty,
    isFunction.cls, zero function (by simp)⟩
  intro symbol mem
  refine zero symbol ?_
  rw [← List.append_assoc]
  exact List.mem_append_left _ mem

/-! ### Reachable states -/

variable {decls : List Decl} {past : List Declaration} {s : State}

theorem Reachable.isScoped (h : Reachable decls past s) : s.Scoped past := by
  have inv := h.invariant
  obtain ⟨globals, own, same, entries, -, holds⟩ := inv.split
  have zero := depth_globals entries
  obtain ⟨context, table, functions, decls⟩ := s
  change table.symbols = _ at same
  cases context with
  | global pending =>
    obtain rfl : own = [] := holds
    simpa [State.Scoped, Context.function?, same] using zero
  | struct index name pending members closing semicolon =>
    obtain ⟨rfl, -⟩ := holds
    simpa [State.Scoped, Context.function?, same] using zero
  | params index scope params closing body =>
    obtain ⟨depth, positive, function, isFunction, rfl⟩ := holds
    obtain ⟨outer, parts, place, before, heads⟩ := isFunction.parts [] zero
    rw [List.append_nil] at parts
    refine ⟨depth ▸ ⟨positive, last_depth inv.depths positive⟩, outer, function, [], ?_, place,
      before, heads, isFunction.args, nofun⟩
    rw [same, parts, List.append_nil]
  | body index scope pending tasks closing =>
    obtain ⟨depth, positive, function, locals, isFunction, rfl, areLocal⟩ := holds
    obtain ⟨outer, parts, place, before, heads⟩ := isFunction.parts locals zero
    exact ⟨depth ▸ ⟨positive, last_depth inv.depths positive⟩, outer, function, locals,
      same.trans parts, place, before, heads, isFunction.args, areLocal⟩

theorem Reachable.resolves (h : Reachable decls past s) (name : String) :
    s.Resolves past name := by
  have inv := h.invariant
  obtain ⟨globals, own, same, entries, owned, -⟩ := inv.split
  have zero := depth_globals entries
  change s.table.symbols = _ at same
  have distinct : Distinct (externals ++ globals ++ own) := same ▸ inv.distinct
  have distinctOuter : Distinct (externals ++ globals) := (List.pairwise_append.mp distinct).1
  have distinctOwn : Distinct own := (List.pairwise_append.mp distinct).2.1
  have names {symbol : Symbol} {decl : Declaration} (entry : symbol.entry = decl.entry) :
      symbol.name = decl.name.value := congrArg Entry.name entry
  -- what the function declares stands behind all other symbols and would be found first
  have outer {symbol : Symbol} (mem : symbol ∈ externals ++ globals) (named : symbol.name = name)
      (free : ∀ decl ∈ past, decl.role.isOwn s.depth? = true → decl.name.value ≠ name) :
      s.table.find? name = some symbol := by
    subst named
    have parts : s.table.symbols = [] ++ (externals ++ globals) ++ own := same
    refine SymbolTable.find?_of_mem parts distinctOuter zero mem ?_
    intro other otherMem
    obtain ⟨decl, inPast, isOwn, entry⟩ := exists_decl owned otherMem
    rw [names entry]
    exact free decl inPast isOwn
  constructor
  case own =>
    rintro decl mem isOwn rfl
    obtain ⟨symbol, inOwn, entry⟩ := exists_symbol owned mem isOwn
    refine ⟨symbol, ?_, entry⟩
    cases inside : s.depth? with
    | none =>
      rw [inside, isOwn_none] at isOwn
      cases isOwn
    | some depth =>
      have level : ∀ symbol ∈ own, symbol.depth = depth := by
        intro symbol mem
        obtain ⟨decl, -, isOwn, entry⟩ := exists_decl owned mem
        rw [show s.core.site.depth? = some depth from inside] at isOwn
        exact (congrArg Entry.depth entry).trans (depth_of_isOwn isOwn)
      have parts : s.table.symbols = externals ++ globals ++ own ++ [] := by
        rw [same, List.append_nil]
      rw [← names entry]
      exact SymbolTable.find?_of_mem parts distinctOwn level inOwn nofun
  case global =>
    rintro free decl mem isGlobal rfl
    obtain ⟨symbol, inGlobals, entry⟩ := exists_symbol entries mem isGlobal
    exact ⟨symbol, outer (List.mem_append_right _ inGlobals) (names entry) free, entry⟩
  case external =>
    intro free symbol mem named
    exact outer (List.mem_append_left _ mem) named free
  case only =>
    intro symbol found
    obtain ⟨_, before, behind, inside, -, rfl, -⟩ := SymbolTable.find?_iff.mp found
    have mem : symbol ∈ externals ++ globals ++ own := by
      rw [← same, inside]
      simp
    rcases List.mem_append.mp mem with outside | inOwn
    · rcases List.mem_append.mp outside with isExternal | inGlobals
      · exact .inr ⟨isExternal, rfl⟩
      · obtain ⟨decl, inPast, isGlobal, entry⟩ := exists_decl entries inGlobals
        exact .inl ⟨decl, inPast, .inr isGlobal, (names entry).symm, entry⟩
    · obtain ⟨decl, inPast, isOwn, entry⟩ := exists_decl owned inOwn
      exact .inl ⟨decl, inPast, .inl isOwn, (names entry).symm, entry⟩

end Machine

namespace Program

open Machine

/-- The analysis of tokens that end with the end of input is a run of the machine. -/
theorem ofTokens_iff_reachable {tokens : List Token} (ends : Ends tokens) :
    ∃ last : Lexeme, last.value = .endOfInput ∧
      (∀ program, (ofTokens tokens).result = .ok program ↔
        ∃ past s, Reachable (Decl.parseAll last (front tokens)).1 past s ∧ s.Done ∧
          program = ⟨s.table, (front tokens).length⟩) ∧
      ∀ fault, (ofTokens tokens).result = .error fault ↔
        ∃ past s, Reachable (Decl.parseAll last (front tokens)).1 past s ∧
          s.step.result = .error fault := by
  obtain ⟨last, isEnd, h⟩ := ofTokens_result ends
  obtain ⟨accepts, refuses⟩ := tableOfDecls_iff (Decl.parseAll last (front tokens)).1
  refine ⟨last, isEnd, fun program => ?_, fun fault => ?_⟩
  · rw [h, Checked.result_map_eq_ok]
    constructor
    · rintro ⟨table, given, rfl⟩
      obtain ⟨past, s, reachable, done, rfl⟩ := (accepts table).mp given
      exact ⟨past, s, reachable, done, rfl⟩
    · rintro ⟨past, s, reachable, done, rfl⟩
      exact ⟨s.table, (accepts s.table).mpr ⟨past, s, reachable, done, rfl⟩, rfl⟩
  · rw [h, Checked.result_map_eq_error, refuses]

/-- The analysis of tokens that end with the end of input is the run of the machine on what they are
read as: it accepts where nothing is left to do and refuses where a step fails. In every state on
the way the scopes are kept apart and every name means what it should. Other tokens are refused at
once. -/
theorem ofTokens_scoped (tokens : List Token) (ends : Ends tokens) :
    ∃ last : Lexeme, last.value = .endOfInput ∧
      (∀ program, (ofTokens tokens).result = .ok program ↔
        ∃ past s, Reachable (Decl.parseAll last (front tokens)).1 past s ∧ s.Done ∧
          program = ⟨s.table, (front tokens).length⟩) ∧
      (∀ fault, (ofTokens tokens).result = .error fault ↔
        ∃ past s, Reachable (Decl.parseAll last (front tokens)).1 past s ∧
          s.step.result = .error fault) ∧
      ∀ past s, Reachable (Decl.parseAll last (front tokens)).1 past s →
        s.Scoped past ∧ ∀ name, s.Resolves past name := by
  obtain ⟨last, isEnd, accepts, refuses⟩ := ofTokens_iff_reachable ends
  exact ⟨last, isEnd, accepts, refuses, fun past s reachable =>
    ⟨reachable.isScoped, reachable.resolves⟩⟩

/-- The machine gets through `int f(int x) {}`, and all its states are in order. -/
theorem ofTokens_scoped_parameter :
    ∃ last past s, Reachable (Decl.parseAll last (front
        [⟨.keyword .intKw, ⟨0, 3⟩, 1⟩, ⟨.identifier "f", ⟨4, 5⟩, 1⟩,
          ⟨.delimiter .leftParen, ⟨5, 6⟩, 1⟩, ⟨.keyword .intKw, ⟨6, 9⟩, 1⟩,
          ⟨.identifier "x", ⟨10, 11⟩, 1⟩, ⟨.delimiter .rightParen, ⟨11, 12⟩, 1⟩,
          ⟨.delimiter .leftBrace, ⟨13, 14⟩, 1⟩, ⟨.delimiter .rightBrace, ⟨14, 15⟩, 1⟩,
          ⟨.endOfInput, ⟨15, 15⟩, 1⟩])).1 past s ∧
      s.Done ∧ s.Scoped past ∧ s.Resolves past "x" := by
  obtain ⟨last, -, accepts, -, inOrder⟩ := ofTokens_scoped
    [⟨.keyword .intKw, ⟨0, 3⟩, 1⟩, ⟨.identifier "f", ⟨4, 5⟩, 1⟩,
      ⟨.delimiter .leftParen, ⟨5, 6⟩, 1⟩, ⟨.keyword .intKw, ⟨6, 9⟩, 1⟩,
      ⟨.identifier "x", ⟨10, 11⟩, 1⟩, ⟨.delimiter .rightParen, ⟨11, 12⟩, 1⟩,
      ⟨.delimiter .leftBrace, ⟨13, 14⟩, 1⟩, ⟨.delimiter .rightBrace, ⟨14, 15⟩, 1⟩,
      ⟨.endOfInput, ⟨15, 15⟩, 1⟩] (by decide)
  obtain ⟨past, s, reachable, done, -⟩ := (accepts _).mp rfl
  obtain ⟨isScoped, resolves⟩ := inOrder past s reachable
  exact ⟨last, past, s, reachable, done, isScoped, resolves "x"⟩

end Program

end PlainC
