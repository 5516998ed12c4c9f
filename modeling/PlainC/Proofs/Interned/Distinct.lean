import PlainC.Proofs.Interned.Texts

set_option autoImplicit false

/-!
No two symbols have both the same name and the same depth, whatever is done to a table. So the
declaration that is in the way of another one is the only such one, and one that is in no way is
found from then on by its name.
-/

namespace PlainC

namespace Interned

/-- What no two symbols of a table have in common. -/
def Symbol.entry (symbol : Symbol) : Nat × Nat := (symbol.name, symbol.depth)

/-- Two symbols are in the way of each other. -/
def Symbol.Clashes (symbol other : Symbol) : Prop :=
  other.name = symbol.name ∧ other.depth = symbol.depth

theorem Symbol.clashes_iff {symbol other : Symbol} :
    symbol.Clashes other ↔ symbol.entry = other.entry := by
  rw [entry, entry, Prod.mk.injEq, Clashes, eq_comm, and_congr_right_iff]
  exact fun _ => eq_comm

namespace Table

/-- No two symbols are in the way of each other. -/
def Distinct (table : Table) : Prop :=
  table.symbols.Pairwise fun first second => ¬first.Clashes second

variable {table : Table}

theorem distinct_iff : table.Distinct ↔ (table.symbols.map Symbol.entry).Nodup := by
  rw [List.Nodup, List.pairwise_map]
  exact List.Pairwise.iff fun _ _ => not_congr Symbol.clashes_iff

theorem Distinct.eq_of_clashes (distinct : table.Distinct) {i j : Nat} {first second : Symbol}
    (at_i : table.get? i = some first) (at_j : table.get? j = some second)
    (clash : first.Clashes second) : i = j := by
  have entry_i : (table.symbols.map Symbol.entry)[i]? = some first.entry := by
    rw [List.getElem?_map, ← get?, at_i, Option.map_some]
  have entry_j : (table.symbols.map Symbol.entry)[j]? = some first.entry := by
    rw [List.getElem?_map, ← get?, at_j, Option.map_some, Symbol.clashes_iff.mp clash]
  obtain ⟨inside, -⟩ := List.getElem?_eq_some_iff.mp entry_i
  exact (List.getElem?_inj inside (distinct_iff.mp distinct)).mp (entry_i.trans entry_j.symm)

/-! ### What operations keep -/

theorem findAtDepth?_eq_none_iff {symbol : Symbol} :
    table.findAtDepth? symbol.name symbol.depth = none ↔
      ∀ other ∈ table.symbols, ¬symbol.Clashes other := by
  simp [findAtDepth?, Symbol.Clashes]

theorem findAtDepth?_spec {symbol previous : Symbol}
    (found : table.findAtDepth? symbol.name symbol.depth = some previous) :
    previous ∈ table.symbols ∧ symbol.Clashes previous := by
  refine ⟨List.mem_reverse.mp (List.mem_of_find?_eq_some found), ?_⟩
  simpa [Symbol.Clashes] using List.find?_some found

namespace Distinct

theorem add (distinct : table.Distinct) (symbol : Symbol) : (table.add symbol).2.Distinct := by
  unfold Table.add
  split
  · exact distinct
  · case h_2 free =>
      refine List.pairwise_append.mpr ⟨distinct, List.pairwise_singleton .., ?_⟩
      rintro other among _ isNew ⟨name, depth⟩
      obtain rfl := List.mem_singleton.mp isNew
      exact findAtDepth?_eq_none_iff.mp free other among ⟨name.symm, depth.symm⟩

/-- What is changed in its place keeps its name and its depth. -/
theorem modify (distinct : table.Distinct) (index : Nat) {change : Symbol → Symbol}
    (name : ∀ symbol, (change symbol).name = symbol.name)
    (depth : ∀ symbol, (change symbol).depth = symbol.depth) :
    Distinct { table with symbols := table.symbols.modify index change } := by
  have kept : ∀ symbol, (change symbol).entry = id symbol.entry := by
    intro symbol
    rw [Symbol.entry, name, depth]
    rfl
  rw [distinct_iff, map_modify kept, List.modify_id]
  exact distinct_iff.mp distinct

theorem pushArg (distinct : table.Distinct) (index : Nat) (arg : Symbol) :
    (table.pushArg index arg).Distinct :=
  distinct.modify index (fun _ => rfl) fun _ => rfl

theorem pushMember (distinct : table.Distinct) (index : Nat) (member : Symbol) :
    (table.pushMember index member).Distinct :=
  distinct.modify index (fun _ => rfl) fun _ => rfl

theorem truncate (distinct : table.Distinct) (size : Nat) : (table.truncate size).Distinct :=
  distinct.sublist (List.take_sublist size table.symbols)

theorem of_symbols {table' : Table} (distinct : table.Distinct)
    (same : table'.symbols = table.symbols) : table'.Distinct := by
  unfold Distinct
  rw [same]
  exact distinct

theorem enter_add (distinct : table.Distinct) (symbol : PlainC.Symbol) :
    ((table.enter symbol).2.add (table.enter symbol).1).2.Distinct :=
  (distinct.of_symbols (symbols_enter symbol)).add _

theorem addAll (symbols : List PlainC.Symbol) {table : Table} (distinct : table.Distinct) :
    (table.addAll symbols).2.Distinct := by
  induction symbols generalizing table with
  | nil => exact distinct
  | cons symbol rest ih =>
    have added := distinct.enter_add symbol
    rw [addAll_cons]
    generalize (table.enter symbol).2.add (table.enter symbol).1 = result at added ⊢
    obtain ⟨outcome, table'⟩ := result
    cases outcome with
    | ok index => exact ih added
    | error redefinition => exact added

theorem change (distinct : table.Distinct) (change : Change) : (change.apply table).Distinct := by
  cases change with
  | intern text => exact distinct.of_symbols (table.symbols_intern text)
  | add symbol => exact distinct.add symbol
  | pushArg index arg => exact distinct.pushArg index arg
  | pushMember index member => exact distinct.pushMember index member
  | truncate size => exact distinct.truncate size
  | addExternals => exact distinct.addAll SymbolTable.externals

theorem perform (changes : List Change) {table : Table} (distinct : table.Distinct) :
    (table.perform changes).Distinct := by
  induction changes generalizing table with
  | nil => exact distinct
  | cons change changes ih => exact ih (distinct.change change)

end Distinct

/-! ### Laws -/

/-- The symbol with an index is the only one that is in the way of a symbol. -/
structure OnlyClash (table : Table) (symbol : Symbol) (index : Nat) (previous : Symbol) : Prop where
  at_index : table.get? index = some previous
  clashes : symbol.Clashes previous
  only : ∀ i other, table.get? i = some other → symbol.Clashes other → i = index

/-- The symbol with an index is the last one that passes a test. -/
structure LastAt (table : Table) (test : Symbol → Prop) (index : Nat) (symbol : Symbol) : Prop where
  at_index : table.get? index = some symbol
  passes : test symbol
  last : ∀ i other, index < i → table.get? i = some other → ¬test other

/-- The laws of a table. -/
structure Lawful (table : Table) : Prop where
  /-- No name is declared twice at one depth. -/
  distinct : ∀ i j first second, table.get? i = some first → table.get? j = some second →
    first.Clashes second → i = j
  /-- A symbol is taken in just if none is in its way. -/
  adds_iff : ∀ symbol, (∃ index, (table.add symbol).1 = .ok index) ↔
    ∀ i other, table.get? i = some other → ¬symbol.Clashes other
  /-- Then it is appended, and found by its name whatever else has that name. -/
  added : ∀ symbol index, (table.add symbol).1 = .ok index →
    index = table.size ∧
      (table.add symbol).2 = { table with symbols := table.symbols ++ [symbol] } ∧
      (table.add symbol).2.find? symbol.name = some symbol ∧
      (table.add symbol).2.position? symbol.name = some index ∧
      (table.add symbol).2.get? index = some symbol
  /-- Otherwise the one that is in its way is named, and nothing is changed. -/
  refused : ∀ symbol redefinition, (table.add symbol).1 = .error redefinition →
    (table.add symbol).2 = table ∧ ∃ index previous, table.OnlyClash symbol index previous ∧
      redefinition = ⟨table.resolve symbol.name, previous.line⟩
  /-- The most recent symbol of a name is found, and its index leads to it. -/
  find_iff : ∀ name symbol, table.find? name = some symbol ↔
    ∃ index, table.position? name = some index ∧
      table.LastAt (fun symbol => symbol.name = name) index symbol
  /-- What is not found is not there. -/
  find_none_iff : ∀ name, (table.find? name = none ↔ table.position? name = none) ∧
    (table.find? name = none ↔ ∀ i symbol, table.get? i = some symbol → symbol.name ≠ name)
  /-- The most recent struct of a name is found. -/
  struct_iff : ∀ name index, table.findStruct? name = some index ↔
    ∃ struct, table.structAt? index = some struct ∧
      table.LastAt (fun symbol => symbol.name = name ∧ symbol.cls = .struct) index struct

theorem add_of_free {symbol : Symbol}
    (free : table.findAtDepth? symbol.name symbol.depth = none) : table.add symbol =
      (.ok table.size, { table with symbols := table.symbols ++ [symbol] }) := by
  rw [add, free]

theorem add_of_taken {symbol previous : Symbol}
    (taken : table.findAtDepth? symbol.name symbol.depth = some previous) :
    table.add symbol = (.error ⟨table.resolve symbol.name, previous.line⟩, table) := by
  rw [add, taken]

/-- The last index is that of the last symbol that passes. -/
theorem lastIndex?_iff {test : Symbol → Bool} {index : Nat} :
    lastIndex? test table.symbols = some index ↔
      ∃ symbol, table.LastAt (fun symbol => test symbol = true) index symbol := by
  rw [lastIndex?_eq_some_iff]
  constructor
  · rintro ⟨symbol, at_index, passes, last⟩
    exact ⟨symbol, at_index, passes, fun i other later found => by
      simp [last i other later found]⟩
  · rintro ⟨symbol, at_index, passes, last⟩
    exact ⟨symbol, at_index, passes, fun i other later found =>
      Bool.eq_false_iff.mpr (last i other later found)⟩

theorem position?_iff {name index : Nat} : table.position? name = some index ↔
    ∃ symbol, table.LastAt (fun symbol => symbol.name = name) index symbol := by
  simp [position?, lastIndex?_iff]

theorem find?_iff {name : Nat} {symbol : Symbol} : table.find? name = some symbol ↔
    ∃ index, table.position? name = some index ∧
      table.LastAt (fun symbol => symbol.name = name) index symbol := by
  rw [find?, Option.bind_eq_some_iff]
  constructor
  · rintro ⟨index, position, at_index⟩
    obtain ⟨other, last⟩ := position?_iff.mp position
    obtain rfl := Option.some.inj (last.at_index.symm.trans at_index)
    exact ⟨index, position, last⟩
  · rintro ⟨index, position, last⟩
    exact ⟨index, position, last.at_index⟩

theorem find?_eq_none_iff {name : Nat} :
    table.find? name = none ↔ table.position? name = none := by
  constructor
  · intro unfound
    cases position : table.position? name with
    | none => rfl
    | some index =>
      obtain ⟨symbol, last⟩ := position?_iff.mp position
      exact absurd (find?_iff.mpr ⟨index, position, last⟩) (by simp [unfound])
  · intro unfound
    rw [find?, unfound, Option.bind_none]

theorem position?_eq_none_iff {name : Nat} : table.position? name = none ↔
    ∀ i symbol, table.get? i = some symbol → symbol.name ≠ name := by
  constructor
  · intro unfound i symbol at_i named
    rcases lastIndex?_cases (fun symbol => symbol.name = name) table.symbols with
        ⟨_, _, _, _, found, -⟩ | ⟨-, others⟩
    · cases unfound.symm.trans found
    · simpa [named] using others symbol (List.mem_of_getElem? at_i)
  · intro others
    refine lastIndex?_of_none _ fun symbol among => decide_eq_false ?_
    obtain ⟨i, at_i⟩ := List.mem_iff_getElem?.mp among
    exact others i symbol at_i

theorem findStruct?_iff {name index : Nat} : table.findStruct? name = some index ↔
    ∃ struct, table.structAt? index = some struct ∧
      table.LastAt (fun symbol => symbol.name = name ∧ symbol.cls = .struct) index struct := by
  simp only [findStruct?, lastIndex?_iff, Bool.and_eq_true, decide_eq_true_eq]
  constructor
  · rintro ⟨struct, last⟩
    exact ⟨struct, by simp [structAt?, last.at_index, last.passes.2], last⟩
  · rintro ⟨struct, -, last⟩
    exact ⟨struct, last⟩

/-- What was appended is found by its name. -/
theorem lastAt_push (symbol : Symbol) :
    LastAt { table with symbols := table.symbols ++ [symbol] }
      (fun other => other.name = symbol.name) table.size symbol where
  at_index := by simp [get?, size]
  passes := rfl
  last := by
    intro i other later found
    have inside := (List.getElem?_eq_some_iff.mp found).1
    simp only [List.length_append, List.length_singleton] at inside
    simp only [size] at later
    omega

theorem lawful_of_distinct (distinct : table.Distinct) : table.Lawful where
  distinct _ _ _ _ := distinct.eq_of_clashes
  adds_iff symbol := by
    have free_iff : table.findAtDepth? symbol.name symbol.depth = none ↔
        ∀ i other, table.get? i = some other → ¬symbol.Clashes other := by
      rw [findAtDepth?_eq_none_iff]
      constructor
      · exact fun free i other at_i => free other (List.mem_of_getElem? at_i)
      · intro free other among
        obtain ⟨i, at_i⟩ := List.mem_iff_getElem?.mp among
        exact free i other at_i
    rw [← free_iff]
    cases result : table.findAtDepth? symbol.name symbol.depth with
    | none => simp [add_of_free result]
    | some previous => simp [add_of_taken result]
  added symbol index ok := by
    cases result : table.findAtDepth? symbol.name symbol.depth with
    | some previous => simp [add_of_taken result] at ok
    | none =>
      rw [add_of_free result] at ok ⊢
      obtain rfl := Except.ok.inj ok
      have last := table.lastAt_push symbol
      have position := position?_iff.mpr ⟨symbol, last⟩
      exact ⟨rfl, rfl, find?_iff.mpr ⟨_, position, last⟩, position, last.at_index⟩
  refused symbol redefinition error := by
    cases result : table.findAtDepth? symbol.name symbol.depth with
    | none => simp [add_of_free result] at error
    | some previous =>
      rw [add_of_taken result] at error ⊢
      obtain rfl := Except.error.inj error
      obtain ⟨among, clash⟩ := findAtDepth?_spec result
      obtain ⟨index, at_index⟩ := List.mem_iff_getElem?.mp among
      refine ⟨rfl, index, previous, ⟨at_index, clash, ?_⟩, rfl⟩
      intro i other at_i clash'
      exact distinct.eq_of_clashes at_i at_index
        ⟨clash.1.trans clash'.1.symm, clash.2.trans clash'.2.symm⟩
  find_iff _ _ := find?_iff
  find_none_iff _ := ⟨find?_eq_none_iff, find?_eq_none_iff.trans position?_eq_none_iff⟩
  struct_iff _ _ := findStruct?_iff

/-! ### Texts -/

theorem perform_append (table : Table) (changes changes' : List Change) :
    table.perform (changes ++ changes') = (table.perform changes).perform changes' :=
  List.foldl_append

/-- The second table comes of the first one by changes. -/
def Comes (table table' : Table) : Prop := ∃ changes, table' = table.perform changes

theorem Comes.refl (table : Table) : table.Comes table := ⟨[], rfl⟩

theorem Comes.then {table' : Table} (comes : table.Comes table') (change : Change) :
    table.Comes (change.apply table') := by
  obtain ⟨changes, rfl⟩ := comes
  exact ⟨changes ++ [change], by rw [perform_append]; rfl⟩

mutual

theorem Comes.enter : ∀ (symbol : PlainC.Symbol) {table' : Table}, table.Comes table' →
    table.Comes (table'.enter symbol).2
  | ⟨name, _, _, _, _, _, args, members⟩, _, comes =>
    Comes.enterAll members (Comes.enterAll args (comes.then (.intern name)))

theorem Comes.enterAll : ∀ (symbols : List PlainC.Symbol) {table' : Table}, table.Comes table' →
    table.Comes (table'.enterAll symbols).2
  | [], _, comes => comes
  | symbol :: rest, _, comes => Comes.enterAll rest (Comes.enter symbol comes)

end

/-- Each operation with texts is made of changes. -/
theorem Comes.apply {table' : Table} (comes : table.Comes table') (op : Operation) :
    table.Comes (op.apply table') := by
  cases op with
  | intern text => exact comes.then (.intern text)
  | add symbol => exact (comes.enter symbol).then (.add _)
  | pushArg index arg => exact (comes.enter arg).then (.pushArg index _)
  | pushMember index member => exact (comes.enter member).then (.pushMember index _)
  | truncate size => exact comes.then (.truncate size)
  | addExternals => exact comes.then .addExternals

theorem Comes.run (ops : List Operation) {table' : Table} (comes : table.Comes table') :
    table.Comes (table'.run ops) := by
  induction ops generalizing table' with
  | nil => exact comes
  | cons op ops ih => exact ih (comes.apply op)

/-- The laws hold in every table that was filled by changes. Of this kind are the tables filled with
the texts of names, and they are the ones with texts that the same operations fill. -/
theorem lawful_run (changes : List Change) (ops : List Operation) :
    (empty.perform changes).Lawful ∧ empty.Comes (empty.run ops) ∧
      (empty.run ops).ReadsAs (runTexts SymbolTable.empty ops) :=
  ⟨lawful_of_distinct (Distinct.perform changes List.Pairwise.nil), (Comes.refl empty).run ops,
    readsAs_run ops⟩

end Table

end Interned

end PlainC
