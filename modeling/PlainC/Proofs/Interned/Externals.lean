import PlainC.Proofs.Interned.Distinct
import PlainC.Proofs.Interned.Scopes
import PlainC.Proofs.Machine.Collisions

set_option autoImplicit false

/-!
The external functions in a table that was filled before. They are declared in order, and the first
one whose name is declared outside of functions already is refused: those in front of it stay in the
table, and those behind it are not tried.
-/

namespace PlainC

namespace SymbolTable

variable {table : SymbolTable} {symbol previous : Symbol} {symbols before : List Symbol}

/-! ### Declaring symbols in order -/

/-- The table with some more symbols, the names of which it has met. -/
def extend (table : SymbolTable) (symbols : List Symbol) : SymbolTable where
  names := (table.internAll (Symbol.namesOfList symbols)).names
  symbols := table.symbols ++ symbols

@[simp] theorem extend_nil (table : SymbolTable) : table.extend [] = table := by
  simp [extend, Symbol.namesOfList]

theorem extend_cons (table : SymbolTable) (symbol : Symbol) (symbols : List Symbol) :
    (table.extend [symbol]).extend symbols = table.extend (symbol :: symbols) := by
  have met : ((table.extend [symbol]).internAll (Symbol.namesOfList symbols)).names =
      (table.internAll (Symbol.namesOfList (symbol :: symbols))).names := by
    rw [Symbol.namesOfList, internAll_append]
    refine names_internAll_congr ?_ _
    simp [extend, Symbol.namesOfList]
  exact congrArg₂ mk met (List.append_assoc table.symbols [symbol] symbols)

/-- The names in a symbol that was appended need not be met again. -/
theorem internAll_extend (table : SymbolTable) (symbol : Symbol) (symbols : List Symbol) :
    (table.extend (symbol :: symbols)).internAll symbol.names =
      table.extend (symbol :: symbols) := by
  refine internAll_eq_self fun name among => mem_names_internAll.mpr (.inr ?_)
  exact List.mem_append_left _ among

theorem add_of_fresh (fresh : Fresh table.symbols symbol) :
    table.add symbol = (.ok table.size, table.extend [symbol]) := by
  rw [add, findAtDepth?_internAll, findAtDepth?_eq_none_iff.mpr fresh]
  simp [extend, size, Symbol.namesOfList]

theorem add_of_taken (taken : table.findAtDepth? symbol.name symbol.depth = some previous) :
    table.add symbol = (.error ⟨symbol.name, previous.line⟩, table.internAll symbol.names) := by
  rw [add, findAtDepth?_internAll, taken]

theorem Fresh.extend {other : Symbol} (fresh : Fresh table.symbols other)
    (apart : ¬(symbol.name = other.name ∧ symbol.depth = other.depth)) :
    Fresh (table.extend [symbol]).symbols other := by
  intro declared among
  rcases List.mem_append.mp among with among | isSymbol
  · exact fresh declared among
  · obtain rfl := List.mem_singleton.mp isSymbol
    exact apart

/-- Symbols that have nothing in their way, not even each other, are all declared. -/
theorem addAll_append (rest : List Symbol) (distinct : Machine.Distinct before)
    (fresh : ∀ symbol ∈ before, Fresh table.symbols symbol) :
    table.addAll (before ++ rest) = (table.extend before).addAll rest := by
  induction before generalizing table with
  | nil => rw [extend_nil, List.nil_append]
  | cons symbol before ih =>
    obtain ⟨apart, distinct⟩ := List.pairwise_cons.mp distinct
    rw [List.cons_append, addAll, add_of_fresh (fresh symbol List.mem_cons_self),
      ← extend_cons table symbol before]
    -- what was declared now is in the way of none of the others
    exact ih distinct fun other among =>
      (fresh other (List.mem_cons_of_mem symbol among)).extend (apart other among)

theorem distinct_extend (distinct : Machine.Distinct table.symbols)
    (distinct' : Machine.Distinct symbols)
    (fresh : ∀ symbol ∈ symbols, Fresh table.symbols symbol) :
    Machine.Distinct (table.extend symbols).symbols :=
  List.pairwise_append.mpr ⟨distinct, distinct', fun other among symbol inside =>
    fresh symbol inside other among⟩

/-- The first symbol that has another one in its way is refused, and those behind it are not
tried. -/
theorem addAll_of_taken (rest : List Symbol) (distinct : Machine.Distinct table.symbols)
    (distinct' : Machine.Distinct before) (fresh : ∀ symbol ∈ before, Fresh table.symbols symbol)
    (among : previous ∈ table.symbols) (name : previous.name = symbol.name)
    (depth : previous.depth = symbol.depth) : table.addAll (before ++ symbol :: rest) =
      (some ⟨symbol.name, previous.line⟩, (table.extend before).internAll symbol.names) := by
  have found : (table.extend before).findAtDepth? symbol.name symbol.depth = some previous := by
    rw [← name, ← depth]
    exact findAtDepth?_of_mem (distinct_extend distinct distinct' fresh)
      (List.mem_append_left before among)
  rw [addAll_append _ distinct' fresh, addAll, add_of_taken found]

/-! ### External functions -/

/-- A symbol outside of functions has the name. -/
def TakenBy (table : SymbolTable) (name : String) (symbol : Symbol) : Prop :=
  symbol ∈ table.symbols ∧ symbol.name = name ∧ symbol.depth = 0

/-- The external function at a position is the first one whose name is taken. -/
structure FirstTaken (table : SymbolTable) (position : Nat) (external previous : Symbol) :
    Prop where
  at_position : externals[position]? = some external
  taken : table.TakenBy external.name previous
  first : ∀ other ∈ externals.take position, ∀ symbol, ¬table.TakenBy other.name symbol

/-- The table with only the symbols outside of functions. -/
def globals (table : SymbolTable) : SymbolTable :=
  { table with symbols := table.symbols.filter fun symbol => symbol.depth = 0 }

/-- What comes of adding the external functions to a table. -/
structure DeclaresExternals (table : SymbolTable) : Prop where
  /-- None is refused just if none of their names is taken. -/
  succeeds_iff : table.addExternals.1 = none ↔
    ∀ external ∈ externals, ∀ symbol, ¬table.TakenBy external.name symbol
  /-- Then all of them are appended in order. -/
  added : table.addExternals.1 = none → table.addExternals.2 = table.extend externals
  /-- Otherwise there is a first one whose name is taken. -/
  refuses : table.addExternals.1 ≠ none →
    ∃ position external previous, table.FirstTaken position external previous
  /-- It is reported with the line of the symbol that has its name, and those in front of it are
  appended in order. Of itself only the names are met. -/
  refused : ∀ position external previous, table.FirstTaken position external previous →
    table.addExternals = (some ⟨external.name, previous.line⟩,
      (table.extend (externals.take position)).internAll external.names)
  /-- The symbols in functions are in no way. -/
  globals : table.globals.addExternals.1 = table.addExternals.1
  /-- What was declared before stays as it is. -/
  older : ∀ index symbol, table.get? index = some symbol →
    table.addExternals.2.get? index = some symbol
  /-- When all have been added, the first one is refused the next time, and nothing is changed. -/
  again : table.addExternals.1 = none → ∃ first, externals.head? = some first ∧
    table.addExternals.2.addExternals = (some ⟨first.name, first.line⟩, table.addExternals.2)

theorem depth_of_mem_externals {external : Symbol} (among : external ∈ externals) :
    external.depth = 0 := by
  have global : ∀ external ∈ externals, external.depth = 0 := by decide
  exact global external among

theorem fresh_external_iff {external : Symbol} (among : external ∈ externals) :
    Fresh table.symbols external ↔ ∀ symbol, ¬table.TakenBy external.name symbol := by
  unfold Fresh TakenBy
  rw [depth_of_mem_externals among]
  exact forall_congr' fun symbol => not_and.symm

theorem addExternals_of_free
    (free : ∀ external ∈ externals, ∀ symbol, ¬table.TakenBy external.name symbol) :
    table.addExternals = (none, table.extend externals) := by
  have all : table.addAll (externals ++ []) = (none, table.extend externals) :=
    addAll_append [] Machine.distinct_externals fun external among =>
      (fresh_external_iff among).mpr (free external among)
  rw [List.append_nil] at all
  exact all

theorem addExternals_of_firstTaken (distinct : Machine.Distinct table.symbols) {position : Nat}
    {external : Symbol} (first : table.FirstTaken position external previous) :
    table.addExternals = (some ⟨external.name, previous.line⟩,
      (table.extend (externals.take position)).internAll external.names) := by
  obtain ⟨inside, rfl⟩ := List.getElem?_eq_some_iff.mp first.at_position
  obtain ⟨among, name, depth⟩ := first.taken
  have parts : externals = externals.take position ++ externals[position] ::
      externals.drop (position + 1) := by
    rw [← List.drop_eq_getElem_cons inside, List.take_append_drop]
  have fresh : ∀ other ∈ externals.take position, Fresh table.symbols other := fun other before =>
    (fresh_external_iff (List.mem_of_mem_take before)).mpr (first.first other before)
  have refused := addAll_of_taken (externals.drop (position + 1)) distinct
    (Machine.distinct_externals.sublist (List.take_sublist position externals)) fresh among name
    (depth.trans (depth_of_mem_externals (List.getElem_mem inside)).symm)
  rw [← parts] at refused
  exact refused

theorem free_or_firstTaken (table : SymbolTable) :
    (∀ external ∈ externals, ∀ symbol, ¬table.TakenBy external.name symbol) ∨
      ∃ position external previous, table.FirstTaken position external previous := by
  classical
  let taken (external : Symbol) : Bool := ∃ symbol, table.TakenBy external.name symbol
  cases search : externals.find? taken with
  | none =>
    refine .inl fun external among symbol isTaken => ?_
    exact List.find?_eq_none.mp search external among (decide_eq_true ⟨symbol, isTaken⟩)
  | some external =>
    obtain ⟨found, before, behind, same, others⟩ := List.find?_eq_some_iff_append.mp search
    obtain ⟨previous, isTaken⟩ := of_decide_eq_true found
    refine .inr ⟨before.length, external, previous, by simp [same], isTaken, ?_⟩
    rw [same, List.take_left]
    intro other among symbol isTaken
    have free := others other among
    simp only [taken, Bool.not_eq_true', decide_eq_false_iff_not] at free
    exact free ⟨symbol, isTaken⟩

theorem addExternals_eq_none_iff (distinct : Machine.Distinct table.symbols) :
    table.addExternals.1 = none ↔
      ∀ external ∈ externals, ∀ symbol, ¬table.TakenBy external.name symbol := by
  constructor
  · intro succeeds
    rcases table.free_or_firstTaken with free | ⟨position, external, previous, first⟩
    · exact free
    · rw [addExternals_of_firstTaken distinct first] at succeeds
      cases succeeds
  · intro free
    rw [addExternals_of_free free]

theorem takenBy_globals {name : String} :
    table.globals.TakenBy name symbol ↔ table.TakenBy name symbol := by
  simp only [TakenBy, globals, List.mem_filter, decide_eq_true_eq]
  tauto

theorem FirstTaken.globals {position : Nat} {external : Symbol}
    (first : table.FirstTaken position external previous) :
    table.globals.FirstTaken position external previous where
  at_position := first.at_position
  taken := takenBy_globals.mpr first.taken
  first := fun other before symbol isTaken =>
    first.first other before symbol (takenBy_globals.mp isTaken)

theorem addExternals_globals (distinct : Machine.Distinct table.symbols) :
    table.globals.addExternals.1 = table.addExternals.1 := by
  rcases table.free_or_firstTaken with free | ⟨position, external, previous, first⟩
  · rw [addExternals_of_free free, addExternals_of_free]
    exact fun external among symbol isTaken =>
      free external among symbol (takenBy_globals.mp isTaken)
  · have fewer : Machine.Distinct table.globals.symbols := distinct.sublist List.filter_sublist
    rw [addExternals_of_firstTaken distinct first, addExternals_of_firstTaken fewer first.globals]

theorem prefix_addExternals (distinct : Machine.Distinct table.symbols) :
    table.symbols <+: table.addExternals.2.symbols := by
  rcases table.free_or_firstTaken with free | ⟨position, external, previous, first⟩
  · rw [addExternals_of_free free]
    exact List.prefix_append ..
  · rw [addExternals_of_firstTaken distinct first, symbols_internAll]
    exact List.prefix_append ..

/-- Behind the external functions the name of the first one is taken by that one itself. -/
theorem addExternals_extend (distinct : Machine.Distinct table.symbols)
    (free : ∀ external ∈ externals, ∀ symbol, ¬table.TakenBy external.name symbol) :
    ∃ first, externals.head? = some first ∧ (table.extend externals).addExternals =
      (some ⟨first.name, first.line⟩, table.extend externals) := by
  obtain ⟨first, rest, parts⟩ : ∃ first rest, externals = first :: rest := ⟨_, _, rfl⟩
  have among : first ∈ externals := by simp [parts]
  have taken : (table.extend externals).FirstTaken 0 first first := {
    at_position := by simp [parts]
    taken := ⟨List.mem_append_right _ among, rfl, depth_of_mem_externals among⟩
    first := by simp }
  have more := distinct_extend distinct Machine.distinct_externals fun external among =>
    (fresh_external_iff among).mpr (free external among)
  refine ⟨first, by simp [parts], ?_⟩
  rw [addExternals_of_firstTaken more taken, List.take_zero, extend_nil, parts, internAll_extend]

theorem declaresExternals_of_distinct (distinct : Machine.Distinct table.symbols) :
    table.DeclaresExternals where
  succeeds_iff := addExternals_eq_none_iff distinct
  added succeeds := by
    rw [addExternals_of_free ((addExternals_eq_none_iff distinct).mp succeeds)]
  refuses fails := table.free_or_firstTaken.resolve_left fun free =>
    fails ((addExternals_eq_none_iff distinct).mpr free)
  refused _ _ _ := addExternals_of_firstTaken distinct
  globals := addExternals_globals distinct
  older index _ at_index := by
    obtain ⟨inside, rfl⟩ := List.getElem?_eq_some_iff.mp at_index
    exact List.prefix_iff_getElem?.mp (prefix_addExternals distinct) index inside
  again succeeds := by
    have free := (addExternals_eq_none_iff distinct).mp succeeds
    rw [addExternals_of_free free]
    exact addExternals_extend distinct free

end SymbolTable

namespace Interned

namespace Table

variable {table : Table}

/-! ### Reachable tables -/

/-- No name is declared twice at one depth, also with texts in place of the handles. -/
theorem Met.distinct_texts (met : table.Met) (distinct : table.Distinct) :
    Machine.Distinct table.texts.symbols := by
  unfold Machine.Distinct texts
  rw [List.pairwise_map]
  refine distinct.imp_of_mem fun {first second} among among' apart => ?_
  rintro ⟨name, depth⟩
  rw [Symbol.texts_name, Symbol.texts_name,
    met.resolve_eq_iff (met.given_name among) (met.given_name among')] at name
  rw [Symbol.texts_depth, Symbol.texts_depth] at depth
  exact apart ⟨name.symm, depth.symm⟩

theorem distinct_run (ops : List Operation) : (empty.run ops).Distinct := by
  obtain ⟨changes, same⟩ := (Comes.refl empty).run ops
  rw [same]
  exact Distinct.perform changes List.Pairwise.nil

/-- In every table that was filled by operations the external functions are declared up to the first
whose name is taken. With handles the outcome is the same, all symbols that were there stay, and the
whole table reads as the one with texts. -/
theorem declaresExternals_run (ops : List Operation) :
    (runTexts SymbolTable.empty ops).DeclaresExternals ∧
      (empty.run ops).addExternals.1 = (runTexts SymbolTable.empty ops).addExternals.1 ∧
      (empty.run ops).addExternals.2.Continues (empty.run ops) ∧
      (empty.run ops).addExternals.2.ReadsAs
        (runTexts SymbolTable.empty ops).addExternals.2 := by
  obtain ⟨met, same⟩ := run_texts ops met_empty
  rw [texts_empty] at same
  have distinct := met.distinct_texts (distinct_run ops)
  have added := (met.addAll SymbolTable.externals).2
  rw [same] at distinct added
  -- adding the external functions is one more operation
  have reads := readsAs_run (ops ++ [.addExternals])
  rw [run, runTexts, List.foldl_append, List.foldl_append] at reads
  exact ⟨SymbolTable.declaresExternals_of_distinct distinct, (congrArg Prod.fst added).symm,
    continues_addAll _ _, reads⟩

/-- A variable outside of functions has the name of the eighth one, and one in a function has that
of the first. -/
example :
    let declared (name : String) (depth : Nat) : PlainC.Symbol :=
      { name, cls := .var, ty := .int, storage := .global, depth, line := 3 }
    let table := runTexts SymbolTable.empty
      [.add (declared "put_s" 1), .add (declared "get_c" 0)]
    table.addExternals.1 = some ⟨"get_c", 3⟩ ∧ table.addExternals.2.size = 2 + 7 :=
  ⟨rfl, rfl⟩

end Table

end Interned

end PlainC
