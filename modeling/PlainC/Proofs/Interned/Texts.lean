import PlainC.Proofs.Interned.Names
import PlainC.Proofs.Table.Lookup

set_option autoImplicit false

/-!
The table with texts behind a table with handles. Both look up the same symbols, whether by a handle
or by a text, and every operation does the same to both.
-/

namespace PlainC

namespace Interned

namespace Table

/-- The table with texts in place of the handles. -/
def texts (table : Table) : SymbolTable :=
  ⟨table.names, table.symbols.map (Symbol.texts table.resolve)⟩

/-- Every text was met once, and every handle in a symbol was given. -/
structure Met (table : Table) : Prop where
  distinct : table.names.Nodup
  given : ∀ symbol ∈ table.symbols, ∀ handle ∈ symbol.handles, table.Given handle

variable {table table' : Table}

theorem met_empty : empty.Met := ⟨List.nodup_nil, by simp [empty]⟩

/-- The texts of handles depend on the names only. -/
theorem texts_symbols (symbols : List Symbol) : texts { table with symbols } =
    ⟨table.names, symbols.map (Symbol.texts table.resolve)⟩ := rfl

theorem texts_push (symbol : Symbol) : texts { table with symbols := table.symbols ++ [symbol] } =
    { table.texts with
      symbols := table.texts.symbols ++ [symbol.texts table.resolve] } := by
  rw [texts_symbols, List.map_append]
  rfl

@[simp] theorem texts_empty : empty.texts = SymbolTable.empty := rfl

/-! ### Looking up -/

namespace Met

variable (met : table.Met)
include met

theorem given_name {symbol : Symbol} (among : symbol ∈ table.symbols) : table.Given symbol.name :=
  met.given symbol among symbol.name symbol.name_mem_handles

/-- Two given handles are the same just if their texts are. -/
theorem resolve_eq_iff {handle other : Nat} (given : table.Given handle)
    (given' : table.Given other) : table.resolve handle = table.resolve other ↔ handle = other :=
  ⟨resolve_inj met.distinct given given', fun same => same ▸ rfl⟩

/-- The tables have the same symbols in the same places. -/
theorem pairs : List.Forall₂ (fun symbol symbol' => table.Given symbol.name ∧
    symbol' = symbol.texts table.resolve) table.symbols table.texts.symbols := by
  rw [texts, List.forall₂_map_right_iff, List.forall₂_same]
  exact fun symbol among => ⟨met.given_name among, rfl⟩

theorem position?_texts {handle : Nat} (given : table.Given handle) :
    table.texts.position? (table.resolve handle) = table.position? handle := by
  refine lastIndex?_eq_of_forall₂ met.pairs ?_
  rintro symbol _ ⟨given', rfl⟩
  simp [met.resolve_eq_iff given' given]

theorem findStruct?_texts {handle : Nat} (given : table.Given handle) :
    table.texts.findStruct? (table.resolve handle) = table.findStruct? handle := by
  refine lastIndex?_eq_of_forall₂ met.pairs ?_
  rintro symbol _ ⟨given', rfl⟩
  simp [met.resolve_eq_iff given' given]

end Met

@[simp] theorem size_texts : table.texts.size = table.size := by
  simp [SymbolTable.size, texts, size]

theorem get?_texts (index : Nat) :
    table.texts.get? index = (table.get? index).map (Symbol.texts table.resolve) := by
  simp [SymbolTable.get?, texts, get?]

theorem structAt?_texts (index : Nat) :
    table.texts.structAt? index = (table.structAt? index).map (Symbol.texts table.resolve) := by
  rw [SymbolTable.structAt?, get?_texts, structAt?]
  cases table.get? index with
  | none => rfl
  | some symbol => by_cases isStruct : symbol.cls = .struct <;> simp [Option.filter, isStruct]

/-- Searching from the end finds what has the last index. -/
theorem reverse_find? {α : Type} (test : α → Bool) (as : List α) :
    as.reverse.find? test = (lastIndex? test as).bind fun index => as[index]? := by
  rcases lastIndex?_cases test as with
      ⟨before, a, behind, rfl, found, passes, others⟩ | ⟨none, others⟩
  · have unfound : behind.reverse.find? test = none := by simpa using others
    simp [found, unfound, passes]
  · simpa [none] using others

theorem findAtDepth?_eq (handle depth : Nat) : table.findAtDepth? handle depth =
    (lastIndex? (fun symbol => symbol.name = handle && symbol.depth = depth)
      table.symbols).bind table.get? :=
  reverse_find? _ table.symbols

namespace Met

variable (met : table.Met)
include met

theorem find?_texts {handle : Nat} (given : table.Given handle) :
    table.texts.find? (table.resolve handle) =
      (table.find? handle).map (Symbol.texts table.resolve) := by
  have same := met.position?_texts given
  unfold SymbolTable.position? at same
  rw [SymbolTable.find?, SymbolTable.findLast?, same, find?]
  cases table.position? handle with
  | none => rfl
  | some index => exact get?_texts index

theorem findAtDepth?_texts {handle : Nat} (given : table.Given handle) (depth : Nat) :
    table.texts.findAtDepth? (table.resolve handle) depth =
      (table.findAtDepth? handle depth).map (Symbol.texts table.resolve) := by
  have same : lastIndex? (fun symbol : PlainC.Symbol => symbol.name = table.resolve handle &&
      symbol.depth = depth) table.texts.symbols = lastIndex? (fun symbol : Symbol =>
        symbol.name = handle && symbol.depth = depth) table.symbols := by
    refine lastIndex?_eq_of_forall₂ met.pairs ?_
    rintro symbol _ ⟨given', rfl⟩
    simp [met.resolve_eq_iff given' given]
  rw [SymbolTable.findAtDepth?, SymbolTable.findLast?, same, findAtDepth?_eq]
  cases lastIndex? (fun symbol : Symbol => symbol.name = handle && symbol.depth = depth)
      table.symbols with
  | none => rfl
  | some index => exact get?_texts index

/-- No symbol has a text that was not met. -/
theorem ne_name_of_new {text : String} (new : table.handle? text = none) {symbol : PlainC.Symbol}
    (among : symbol ∈ table.texts.symbols) : symbol.name ≠ text := by
  obtain ⟨own, inside, rfl⟩ := List.mem_map.mp among
  rintro rfl
  rw [Symbol.texts_name] at new
  exact handle?_eq_none_iff.mp new (resolve_mem (met.given_name inside))

/-- Looking up a text by its handle finds what looking up the text itself finds. -/
theorem findText?_texts (text : String) :
    table.texts.find? text = (table.findText? text).map (Symbol.texts table.resolve) := by
  cases found : table.handle? text with
  | some handle =>
    obtain ⟨given, rfl⟩ := handle?_spec found
    rw [findText?, found, met.find?_texts given, Option.bind_some]
  | none =>
    rw [findText?, found, Option.bind_none, Option.map_none, SymbolTable.find?,
      SymbolTable.findLast?_eq_none_iff]
    exact fun symbol among => decide_eq_false (met.ne_name_of_new found among)

theorem findStructText?_texts (text : String) :
    table.texts.findStruct? text = table.findStructText? text := by
  cases found : table.handle? text with
  | some handle =>
    obtain ⟨given, rfl⟩ := handle?_spec found
    rw [findStructText?, found, met.findStruct?_texts given, Option.bind_some]
  | none =>
    rw [findStructText?, found, Option.bind_none]
    refine lastIndex?_of_none _ fun symbol among => ?_
    rw [decide_eq_false (met.ne_name_of_new found among), Bool.false_and]

end Met

/-! ### Changing -/

theorem addAll_cons (symbol : PlainC.Symbol) (rest : List PlainC.Symbol) :
    table.addAll (symbol :: rest) = match (table.enter symbol).2.add (table.enter symbol).1 with
      | (.ok _, table) => table.addAll rest
      | (.error redefinition, table) => (some redefinition, table) := rfl

theorem map_modify {α β : Type} {f : α → β} {change : α → α} {change' : β → β}
    (same : ∀ a, f (change a) = change' (f a)) (as : List α) (i : Nat) :
    (as.modify i change).map f = (as.map f).modify i change' := by
  induction as generalizing i with
  | nil => simp
  | cons a as ih => cases i <;> simp [same, ih]

namespace Met

/-- Entering names leaves the symbols, also as they read. -/
theorem entered {names : List String} {handles : List Nat} (met : table.Met)
    (entered : table.Entered names handles table') :
    table'.Met ∧ table'.texts = table.texts.internAll names := by
  have same : table.symbols.map (Symbol.texts table'.resolve) =
      table.symbols.map (Symbol.texts table.resolve) :=
    List.map_congr_left fun symbol among => entered.extends.texts_eq (met.given symbol among)
  refine ⟨⟨?_, ?_⟩, ?_⟩
  · rw [entered.names]
    exact SymbolTable.nodup_internAll met.distinct names
  · rw [entered.symbols]
    exact fun symbol among handle inside => entered.extends.given (met.given symbol among _ inside)
  · rw [SymbolTable.internAll_eq, texts, entered.names, entered.symbols, same]
    rfl

theorem intern (met : table.Met) (text : String) : (table.intern text).2.Met ∧
    (table.intern text).2.texts = table.texts.intern text :=
  met.entered (table.entered_intern text)

theorem enter (met : table.Met) (symbol : PlainC.Symbol) : (table.enter symbol).2.Met ∧
    (table.enter symbol).2.texts = table.texts.internAll symbol.names :=
  met.entered (enter_spec symbol table).1

/-- A symbol is put into both tables, if it is put into one of them. -/
theorem add (met : table.Met) {symbol : Symbol}
    (given : ∀ handle ∈ symbol.handles, table.Given handle) : (table.add symbol).2.Met ∧
      table.texts.add (symbol.texts table.resolve) =
        ((table.add symbol).1, (table.add symbol).2.texts) := by
  have known : ∀ name ∈ (symbol.texts table.resolve).names, name ∈ table.texts.names := by
    rw [Symbol.names_texts]
    intro name among
    obtain ⟨handle, inside, rfl⟩ := List.mem_map.mp among
    exact resolve_mem (given handle inside)
  have same := met.findAtDepth?_texts (given _ symbol.name_mem_handles) symbol.depth
  rw [SymbolTable.add, SymbolTable.internAll_eq_self known, Symbol.texts_name, Symbol.texts_depth,
    same, Table.add]
  cases table.findAtDepth? symbol.name symbol.depth with
  | some previous => exact ⟨met, by simp⟩
  | none =>
    refine ⟨⟨met.distinct, ?_⟩, by simp only [Option.map_none, size_texts, texts_push]⟩
    intro other among
    rcases List.mem_append.mp among with among | among
    · exact met.given other among
    · obtain rfl := List.mem_singleton.mp among
      exact given

/-- A change of one symbol that puts in only handles that were given. -/
theorem modify (met : table.Met) {index : Nat} {change : Symbol → Symbol}
    {change' : PlainC.Symbol → PlainC.Symbol}
    (given : ∀ symbol, (∀ handle ∈ symbol.handles, table.Given handle) →
      ∀ handle ∈ (change symbol).handles, table.Given handle)
    (same : ∀ symbol, (change symbol).texts table.resolve = change' (symbol.texts table.resolve)) :
    Met { table with symbols := table.symbols.modify index change } ∧
      texts { table with symbols := table.symbols.modify index change } =
        table.texts.modify index change' := by
  refine ⟨⟨met.distinct, ?_⟩, ?_⟩
  · intro symbol among
    obtain ⟨i, at_i⟩ := List.mem_iff_getElem?.mp among
    rw [List.getElem?_modify] at at_i
    obtain ⟨old, found, rfl⟩ := Option.map_eq_some_iff.mp at_i
    have old_given := met.given old (List.mem_of_getElem? found)
    split
    · exact given old old_given
    · exact old_given
  · rw [texts_symbols, map_modify same]
    rfl

theorem pushArg (met : table.Met) (index : Nat) {arg : Symbol}
    (given : ∀ handle ∈ arg.handles, table.Given handle) : (table.pushArg index arg).Met ∧
      (table.pushArg index arg).texts = table.texts.modify index fun symbol =>
        { symbol with args := symbol.args ++ [arg.texts table.resolve] } := by
  refine met.modify ?_ ?_
  · rintro ⟨name, cls, ty, storage, depth, line, args, members⟩ old handle among
    simp only [Symbol.handles, handlesOfList_append, handlesOfList, List.mem_cons,
      List.mem_append, List.append_nil] at old among
    rcases among with rfl | (among | among) | among
    · exact old _ (.inl rfl)
    · exact old handle (.inr (.inl among))
    · exact given handle among
    · exact old handle (.inr (.inr among))
  · intro symbol
    cases symbol
    simp [Symbol.texts, textsOfList_eq_map]

theorem pushMember (met : table.Met) (index : Nat) {member : Symbol}
    (given : ∀ handle ∈ member.handles, table.Given handle) : (table.pushMember index member).Met ∧
      (table.pushMember index member).texts = table.texts.modify index fun symbol =>
        { symbol with members := symbol.members ++ [member.texts table.resolve] } := by
  refine met.modify ?_ ?_
  · rintro ⟨name, cls, ty, storage, depth, line, args, members⟩ old handle among
    simp only [Symbol.handles, handlesOfList_append, handlesOfList, List.mem_cons,
      List.mem_append, List.append_nil] at old among
    rcases among with rfl | among | among | among
    · exact old _ (.inl rfl)
    · exact old handle (.inr (.inl among))
    · exact old handle (.inr (.inr among))
    · exact given handle among
  · intro symbol
    cases symbol
    simp [Symbol.texts, textsOfList_eq_map]

theorem truncate (met : table.Met) (size : Nat) : (table.truncate size).Met ∧
    (table.truncate size).texts = table.texts.truncate size := by
  refine ⟨⟨met.distinct, fun symbol among => met.given symbol (List.mem_of_mem_take among)⟩, ?_⟩
  rw [Table.truncate, texts_symbols, List.map_take]
  rfl

/-- Reading a symbol and declaring it. -/
theorem enter_add (met : table.Met) (symbol : PlainC.Symbol) :
    ((table.enter symbol).2.add (table.enter symbol).1).2.Met ∧
      table.texts.add symbol = (((table.enter symbol).2.add (table.enter symbol).1).1,
        ((table.enter symbol).2.add (table.enter symbol).1).2.texts) := by
  obtain ⟨entered, entered_texts⟩ := met.enter symbol
  obtain ⟨added, same⟩ := entered.add (given_enter symbol)
  refine ⟨added, ?_⟩
  rw [← same, texts_enter, entered_texts]
  exact SymbolTable.add_internAll.symm

theorem addAll (symbols : List PlainC.Symbol) {table : Table} (met : table.Met) :
    (table.addAll symbols).2.Met ∧ table.texts.addAll symbols =
      ((table.addAll symbols).1, (table.addAll symbols).2.texts) := by
  induction symbols generalizing table with
  | nil => exact ⟨met, rfl⟩
  | cons symbol rest ih =>
    obtain ⟨added, same⟩ := met.enter_add symbol
    rw [SymbolTable.addAll, same, addAll_cons]
    generalize (table.enter symbol).2.add (table.enter symbol).1 = result at added ⊢
    obtain ⟨outcome, table'⟩ := result
    cases outcome with
    | ok index => exact ih added
    | error redefinition => exact ⟨added, rfl⟩

end Met

end Table

/-! ### Operations -/

/-- An operation does the same to both tables. -/
theorem Operation.apply_texts {table : Table} (met : table.Met) (op : Operation) :
    (op.apply table).Met ∧ (op.apply table).texts = op.applyTexts table.texts := by
  cases op with
  | intern text => exact met.intern text
  | add symbol =>
    obtain ⟨added, same⟩ := met.enter_add symbol
    exact ⟨added, by rw [applyTexts, same]; rfl⟩
  | pushArg index arg =>
    obtain ⟨entered, entered_texts⟩ := met.enter arg
    obtain ⟨pushed, same⟩ := entered.pushArg index (Table.given_enter arg)
    refine ⟨pushed, same.trans ?_⟩
    rw [Table.texts_enter, entered_texts]
    rfl
  | pushMember index member =>
    obtain ⟨entered, entered_texts⟩ := met.enter member
    obtain ⟨pushed, same⟩ := entered.pushMember index (Table.given_enter member)
    refine ⟨pushed, same.trans ?_⟩
    rw [Table.texts_enter, entered_texts]
    rfl
  | truncate size => exact met.truncate size
  | addExternals =>
    obtain ⟨added, same⟩ := met.addAll SymbolTable.externals
    exact ⟨added, by rw [applyTexts, SymbolTable.addExternals, same]; rfl⟩

theorem Table.run_texts (ops : List Operation) {table : Table} (met : table.Met) :
    (table.run ops).Met ∧ (table.run ops).texts = runTexts table.texts ops := by
  induction ops generalizing table with
  | nil => exact ⟨met, rfl⟩
  | cons op ops ih =>
    obtain ⟨met', same⟩ := op.apply_texts met
    obtain ⟨last, last_same⟩ := ih met'
    refine ⟨last, ?_⟩
    rw [runTexts, List.foldl_cons, ← same]
    exact last_same

namespace Table

theorem met_run (ops : List Operation) : (empty.run ops).Met :=
  (run_texts ops met_empty).1

/-- A table with texts has met the same names as one with handles, and has, finds and takes in the
same symbols. -/
structure ReadsAs (table : Table) (shown : SymbolTable) : Prop where
  names : shown.names = table.names
  get? : ∀ index, shown.get? index = (table.get? index).map (Symbol.texts table.resolve)
  structAt? : ∀ index,
    shown.structAt? index = (table.structAt? index).map (Symbol.texts table.resolve)
  position? : ∀ handle, table.Given handle →
    shown.position? (table.resolve handle) = table.position? handle
  find? : ∀ handle, table.Given handle → shown.find? (table.resolve handle) =
    (table.find? handle).map (Symbol.texts table.resolve)
  findAtDepth? : ∀ handle depth, table.Given handle →
    shown.findAtDepth? (table.resolve handle) depth =
      (table.findAtDepth? handle depth).map (Symbol.texts table.resolve)
  findStruct? : ∀ handle, table.Given handle →
    shown.findStruct? (table.resolve handle) = table.findStruct? handle
  findText? : ∀ text, shown.find? text = (table.findText? text).map (Symbol.texts table.resolve)
  findStructText? : ∀ text, shown.findStruct? text = table.findStructText? text
  add : ∀ symbol,
    (shown.add symbol).1 = ((table.enter symbol).2.add (table.enter symbol).1).1

/-- A table that was filled by operations is the one with texts that they fill. -/
theorem readsAs_run (ops : List Operation) :
    (empty.run ops).ReadsAs (runTexts SymbolTable.empty ops) := by
  obtain ⟨met, same⟩ := run_texts ops met_empty
  rw [← texts_empty, ← same]
  exact {
    names := rfl
    get? := get?_texts
    structAt? := structAt?_texts
    position? := fun _ => met.position?_texts
    find? := fun _ => met.find?_texts
    findAtDepth? := fun _ depth given => met.findAtDepth?_texts given depth
    findStruct? := fun _ => met.findStruct?_texts
    findText? := met.findText?_texts
    findStructText? := met.findStructText?_texts
    add := fun symbol => congrArg Prod.fst (met.enter_add symbol).2 }

end Table

end Interned

end PlainC
