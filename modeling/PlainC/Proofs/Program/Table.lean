import PlainC.Proofs.Checking.Gaps
import PlainC.Proofs.Declaring.Decl
import PlainC.Proofs.Machine.Resolution
import PlainC.Proofs.Reading.Decl

set_option autoImplicit false

/-!
The symbol table of an accepted program: behind the external functions one symbol for each name that
is declared at the top level, and nothing else.
-/

namespace PlainC

open SymbolTable (externals)

/-! ### Names of declarations -/

/-- The symbols are those of names at the top level, in order, and among them of some structs. -/
structure Listed (symbols : List Symbol) (names : List Name) (structs : List String) : Prop where
  names : symbols.map (fun symbol => (symbol.name, symbol.line)) =
    names.map fun name => (name.value, name.place.line)
  global : ∀ symbol ∈ symbols, symbol.depth = 0 ∧ symbol.storage = .global
  structs : (symbols.filter fun symbol => symbol.cls = .struct).map Symbol.name = structs

theorem Listed.append {symbols symbols' : List Symbol} {names names' : List Name}
    {structs structs' : List String} (first : Listed symbols names structs)
    (next : Listed symbols' names' structs') :
    Listed (symbols ++ symbols') (names ++ names') (structs ++ structs') := by
  refine ⟨?_, ?_, ?_⟩
  · rw [List.map_append, List.map_append, first.names, next.names]
  · intro symbol mem
    rcases List.mem_append.mp mem with mem | mem
    · exact first.global symbol mem
    · exact next.global symbol mem
  · rw [List.filter_append, List.map_append, first.structs, next.structs]

theorem Variables.listed {base : Base} {table : SymbolTable} {declarators : List Declarator}
    {symbols : List Symbol} (h : Variables base table declarators symbols) :
    Listed symbols (declarators.filterMap Declarator.name?) [] := by
  induction h with
  | nil => exact ⟨rfl, nofun, rfl⟩
  | @cons _ _ name _ _ ty _ _ _ _ _ ih =>
    have first : Listed [topLevelSymbol name .var ty] [name] [] :=
      ⟨rfl, by simp [topLevelSymbol], rfl⟩
    exact first.append ih

theorem Decl.Declares.listed {table : SymbolTable} {functions : Nat} {decl : Decl}
    {symbols : List Symbol} (h : decl.Declares table functions symbols) :
    Listed symbols decl.names decl.structName?.toList := by
  cases h with
  | struct => exact ⟨rfl, by simp [topLevelSymbol], rfl⟩
  | function => exact ⟨rfl, by simp [topLevelSymbol], rfl⟩
  | vars _ variables' => exact variables'.listed

theorem Declarations.listed {table : SymbolTable} {functions : Nat} {decls : List Decl}
    {symbols : List Symbol} (h : Declarations table functions decls symbols) :
    Listed symbols (decls.flatMap Decl.names) (decls.filterMap Decl.structName?) := by
  induction h with
  | nil => exact ⟨rfl, nofun, rfl⟩
  | @cons _ _ _ decl rest _ _ declares _ _ ih =>
    have same : (decl :: rest).filterMap Decl.structName? =
        decl.structName?.toList ++ rest.filterMap Decl.structName? := by
      cases name : decl.structName? <;> simp [name]
    rw [same]
    exact declares.listed.append ih

/-! ### Looking up -/

namespace SymbolTable

variable {table : SymbolTable} {name : String} {symbol : Symbol}

/-- Where no name is declared twice, a symbol that passes a test of its name is the latest one. -/
theorem latest_iff_mem {test : Symbol → Prop} (distinct : (table.symbols.map Symbol.name).Nodup)
    (named : ∀ symbol, test symbol → symbol.name = name) :
    table.Latest test symbol ↔ symbol ∈ table.symbols ∧ test symbol := by
  constructor
  · rintro ⟨_, before, behind, same, -, passes, -⟩
    exact ⟨by simp [same], passes⟩
  · rintro ⟨mem, passes⟩
    obtain ⟨before, behind, same⟩ := List.append_of_mem mem
    refine ⟨_, before, behind, same, rfl, passes, fun other among passes' => ?_⟩
    rw [same, List.map_append, List.map_cons] at distinct
    have apart := (List.nodup_cons.mp (List.nodup_append.mp distinct).2.1).1
    rw [named symbol passes, ← named other passes'] at apart
    exact apart (List.mem_map_of_mem among)

theorem find?_iff_mem (distinct : (table.symbols.map Symbol.name).Nodup) :
    table.find? name = some symbol ↔ symbol ∈ table.symbols ∧ symbol.name = name :=
  find?_iff.trans (latest_iff_mem distinct fun _ => id)

theorem findStruct?_bind_structAt? (table : SymbolTable) (name : String) :
    (table.findStruct? name).bind table.structAt? =
      table.findLast? fun symbol => symbol.name = name && symbol.cls = .struct := by
  unfold findStruct? findLast?
  cases found : lastIndex? (fun symbol => symbol.name = name && symbol.cls = .struct)
      table.symbols with
  | none => rfl
  | some index =>
    obtain ⟨symbol, latest⟩ := lastIndex?_iff.mp found
    have isStruct : symbol.cls = .struct := by
      obtain ⟨_, _, _, _, passes, -⟩ := latest
      simpa using (Bool.and_eq_true_iff.mp passes).2
    simp [structAt?, latest.get?_eq, isStruct]

end SymbolTable

namespace Program

variable {program : Program} {name : String}

theorem structMembers?_iff_mem (distinct : (program.table.symbols.map Symbol.name).Nodup)
    {members : List Symbol} : program.structMembers? name = some members ↔
      ∃ symbol ∈ program.table.symbols,
        symbol.name = name ∧ symbol.cls = .struct ∧ symbol.members = members := by
  have latest (symbol : Symbol) :
      program.table.Latest (fun symbol => symbol.name = name ∧ symbol.cls = .struct) symbol ↔
        symbol ∈ program.table.symbols ∧ symbol.name = name ∧ symbol.cls = .struct :=
    SymbolTable.latest_iff_mem distinct fun _ => And.left
  simp [structMembers?, SymbolTable.findStruct?_bind_structAt?, SymbolTable.findLast?_iff, latest,
    and_assoc]

/-- The program has the symbols that declarations declare, behind the external functions, and what
it finds is just that. -/
structure Holds (program : Program) (decls : List Decl) (declared : List Symbol) : Prop where
  table : program.table.symbols = externals ++ declared
  declarations : Declarations .initial 0 decls declared
  names : declared.map (fun symbol => (symbol.name, symbol.line)) =
    (decls.flatMap Decl.names).map fun name => (name.value, name.place.line)
  global : ∀ symbol ∈ declared, symbol.depth = 0 ∧ symbol.storage = .global
  distinct : (program.table.symbols.map Symbol.name).Nodup
  finds : ∀ name symbol, program.find? name = some symbol ↔
    symbol ∈ program.table.symbols ∧ symbol.name = name
  findsNames : ∀ name, (program.find? name).isSome ↔
    name ∈ externals.map Symbol.name ∨ name ∈ (decls.flatMap Decl.names).map At.value
  findsStructs : ∀ name, (program.structMembers? name).isSome ↔
    name ∈ decls.filterMap Decl.structName?

theorem noStruct_externals : ∀ symbol ∈ externals, symbol.cls ≠ .struct := by
  decide

theorem holds_of_gives (program : Program) {decls : List Decl} (formed : ∀ decl ∈ decls, decl.Formed)
    (h : (tableOfDecls decls).Gives program.table) :
    ∃ declared, program.Holds decls declared := by
  obtain ⟨past, s, reachable, -, final⟩ := ((Machine.tableOfDecls_iff decls).1 _).mp h
  simp only [tableOfDecls, Checked.gives_bind, Checked.gives_pure] at h
  obtain ⟨result, checked, same⟩ := h
  obtain ⟨declared, declarations, table⟩ := declarations_of_gives formed checked
  rw [← same, SymbolTable.symbols_initial] at table
  have listed := declarations.listed
  have zero : ∀ symbol ∈ program.table.symbols, symbol.depth = 0 := by
    rw [table]
    intro symbol mem
    rcases List.mem_append.mp mem with external | added
    · exact Machine.depth_externals symbol external
    · exact (listed.global symbol added).1
  have distinct : (program.table.symbols.map Symbol.name).Nodup := by
    have apart : Machine.Distinct program.table.symbols := final ▸ reachable.invariant.distinct
    refine List.pairwise_map.mpr (apart.imp_of_mem ?_)
    intro first second mem mem' different named
    exact different ⟨named, (zero first mem).trans (zero second mem').symm⟩
  have finds (name : String) (symbol : Symbol) : program.find? name = some symbol ↔
      symbol ∈ program.table.symbols ∧ symbol.name = name := SymbolTable.find?_iff_mem distinct
  refine ⟨declared, table, declarations, listed.names, listed.global, distinct, finds, ?_, ?_⟩
  · intro name
    have names : declared.map Symbol.name = (decls.flatMap Decl.names).map At.value := by
      simpa [Function.comp_def] using congrArg (List.map Prod.fst) listed.names
    rw [Option.isSome_iff_exists, ← names, ← List.mem_append, ← List.map_append, ← table]
    simp only [finds, List.mem_map]
  · intro name
    rw [Option.isSome_iff_exists, ← listed.structs]
    simp only [structMembers?_iff_mem distinct, List.mem_map, List.mem_filter, decide_eq_true_eq]
    constructor
    · rintro ⟨members, symbol, mem, named, isStruct, -⟩
      rw [table] at mem
      rcases List.mem_append.mp mem with external | added
      · exact absurd isStruct (noStruct_externals symbol external)
      · exact ⟨symbol, ⟨added, isStruct⟩, named⟩
    · rintro ⟨symbol, ⟨added, isStruct⟩, named⟩
      exact ⟨_, symbol, table ▸ List.mem_append_right _ added, named, isStruct, rfl⟩

/-- An accepted list of tokens is written from declarations, up to the end of input where the
analysis ends, and the symbols of the program are those that these declarations declare. -/
theorem ofTokens_holds (tokens : List Token) (program : Program)
    (accepted : (ofTokens tokens).result = .ok program) :
    ∃ decls declared, (∀ decl ∈ decls, decl.Formed) ∧ Gapless (decls.flatMap Decl.parts) ∧
      lexemesOf (decls.flatMap Decl.parts) = Lexeme.number 0 (tokens.take program.position) ∧
      tokens[program.position]?.map Token.kind = some .endOfInput ∧
      program.Holds decls declared := by
  have ends := ends_of_accepted accepted
  obtain ⟨decls, written⟩ := exists_written accepted
  obtain ⟨given, position⟩ := (written.accepted_iff ends).mp accepted
  obtain ⟨declared, holds⟩ := holds_of_gives program written.formed given
  rw [position, number_take_front ends]
  exact ⟨decls, declared, written.formed, written.gapless, written.lexemes,
    (front_spelled ends).2, holds⟩

/-- `struct S { int n; };` is accepted, and its symbols are those of declarations. -/
theorem ofTokens_holds_struct :
    let tokens : List Token :=
      [⟨.keyword .structKw, ⟨0, 6⟩, 1⟩, ⟨.identifier "S", ⟨7, 8⟩, 1⟩,
        ⟨.delimiter .leftBrace, ⟨9, 10⟩, 1⟩, ⟨.keyword .intKw, ⟨11, 14⟩, 1⟩,
        ⟨.identifier "n", ⟨15, 16⟩, 1⟩, ⟨.delimiter .semicolon, ⟨16, 17⟩, 1⟩,
        ⟨.delimiter .rightBrace, ⟨18, 19⟩, 1⟩, ⟨.delimiter .semicolon, ⟨19, 20⟩, 1⟩,
        ⟨.endOfInput, ⟨20, 20⟩, 1⟩]
    ∃ program decls declared, (ofTokens tokens).result = .ok program ∧
      program.Holds decls declared := by
  intro tokens
  obtain ⟨program, accepted⟩ : ∃ program, (ofTokens tokens).result = .ok program := ⟨_, rfl⟩
  obtain ⟨decls, declared, -, -, -, -, holds⟩ := ofTokens_holds tokens program accepted
  exact ⟨program, decls, declared, accepted, holds⟩

end Program

end PlainC
