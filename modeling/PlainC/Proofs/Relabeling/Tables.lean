import PlainC.Proofs.Relabeling.Checks
import PlainC.Proofs.Table.Changing
import PlainC.Proofs.Table.Lookup

set_option autoImplicit false

/-!
The symbols of a program and those of the relabeled program. What is looked up in the two tables is
alike, and so is what declarations make of them.
-/

namespace PlainC

open SymbolTable (externals)

/-! ### Symbols -/

/-- The parameter or member with another name and on another line. -/
inductive Symbol.PartAlike (r : Relabeling) : Symbol → Symbol → Prop
  | intro {name cls ty storage depth line line'} : r.lines line line' →
      PartAlike r ⟨name, cls, ty, storage, depth, line, [], []⟩
        ⟨r.name name, cls, ty, storage, depth, line', [], []⟩

/-- The symbol with other names and on other lines. -/
inductive Symbol.Alike (r : Relabeling) : Symbol → Symbol → Prop
  | intro {name cls ty storage depth line line' args args' members members'} : r.lines line line' →
      List.Forall₂ (PartAlike r) args args' → List.Forall₂ (PartAlike r) members members' →
      Alike r ⟨name, cls, ty, storage, depth, line, args, members⟩
        ⟨r.name name, cls, ty, storage, depth, line', args', members'⟩

/-- The symbols look the same to a check. Of the parameters only the types matter, as those of an
external function keep their names. -/
structure Symbol.LooksLike (r : Relabeling) (symbol symbol' : Symbol) : Prop where
  name : symbol'.name = r.name symbol.name
  cls : symbol'.cls = symbol.cls
  ty : symbol'.ty = symbol.ty
  depth : symbol'.depth = symbol.depth
  line : r.lines symbol.line symbol'.line
  args : symbol'.args.map Symbol.ty = symbol.args.map Symbol.ty
  members : List.Forall₂ (PartAlike r) symbol.members symbol'.members

section

variable {r : Relabeling} {symbol symbol' : Symbol}

theorem Symbol.PartAlike.name (h : symbol.PartAlike r symbol') :
    symbol'.name = r.name symbol.name := by
  cases h
  rfl

theorem Symbol.PartAlike.ty (h : symbol.PartAlike r symbol') : symbol'.ty = symbol.ty := by
  cases h
  rfl

theorem Symbol.PartAlike.line (h : symbol.PartAlike r symbol') :
    r.lines symbol.line symbol'.line := by
  cases h
  assumption

/-- A part is a symbol without parts. -/
theorem Symbol.PartAlike.alike (h : symbol.PartAlike r symbol') : symbol.Alike r symbol' := by
  cases h with
  | intro lines => exact .intro lines .nil .nil

theorem Symbol.Alike.name (h : symbol.Alike r symbol') : symbol'.name = r.name symbol.name := by
  cases h
  rfl

theorem Symbol.Alike.depth (h : symbol.Alike r symbol') : symbol'.depth = symbol.depth := by
  cases h
  rfl

theorem Symbol.Alike.addArg {arg arg' : Symbol} (h : symbol.Alike r symbol')
    (added : arg.PartAlike r arg') :
    { symbol with args := symbol.args ++ [arg] }.Alike r
      { symbol' with args := symbol'.args ++ [arg'] } := by
  cases h with
  | intro lines args members =>
    exact .intro lines (List.rel_append args (.cons added .nil)) members

theorem Symbol.Alike.addMember {member member' : Symbol} (h : symbol.Alike r symbol')
    (added : member.PartAlike r member') :
    { symbol with members := symbol.members ++ [member] }.Alike r
      { symbol' with members := symbol'.members ++ [member'] } := by
  cases h with
  | intro lines args members =>
    exact .intro lines args (List.rel_append members (.cons added .nil))

theorem Symbol.Alike.looksLike (h : symbol.Alike r symbol') : symbol.LooksLike r symbol' := by
  cases h with
  | intro lines args members =>
    refine ⟨rfl, rfl, rfl, rfl, lines, ?_, members⟩
    clear lines members
    induction args with
    | nil => rfl
    | cons head _ ih => simp [ih, head.ty]

/-- An external function has no members, and stands on line 0. -/
theorem Symbol.looksLike_external (external : symbol ∈ externals) : symbol.LooksLike r symbol := by
  have plain : ∀ symbol ∈ externals, symbol.line = 0 ∧ symbol.members = [] := by decide
  obtain ⟨line, members⟩ := plain symbol external
  refine ⟨(r.external symbol external).symm, rfl, rfl, rfl, ?_, rfl, ?_⟩
  · rw [line]
    exact r.lines_zero
  · rw [members]
    exact .nil

/-- Where no name and no line is changed, nothing is. -/
theorem Symbol.Alike.eq (h : symbol.Alike r symbol') (keeps : r.KeepsNames)
    (same : ∀ {line line'}, r.lines line line' → line' = line) : symbol' = symbol := by
  have parts {parts parts' : List Symbol} (alike : List.Forall₂ (PartAlike r) parts parts') :
      parts' = parts := by
    induction alike with
    | nil => rfl
    | cons head _ ih =>
      cases head with
      | intro lines => rw [ih, keeps, same lines]
  cases h with
  | intro lines args members => rw [keeps, same lines, parts args, parts members]

theorem Symbol.LooksLike.isCallable (h : symbol.LooksLike r symbol') :
    symbol'.isCallable = symbol.isCallable := by
  rw [Symbol.isCallable, Symbol.isCallable, h.cls]

theorem Symbol.LooksLike.member? (h : symbol.LooksLike r symbol') (name : String) :
    Option.Rel (PartAlike r) (symbol.member? name) (symbol'.member? (r.name name)) := by
  apply rel_find? h.members
  intro member member' alike
  have same : r.name member.name = r.name name ↔ member.name = name :=
    ⟨r.injective, congrArg r.name⟩
  simp only [alike.name, same]

/-- The members of a name in two symbols, if there are these. -/
theorem Symbol.rel_member? {symbol? symbol'? : Option Symbol}
    (h : Option.Rel (LooksLike r) symbol? symbol'?) (name : String) :
    Option.Rel (PartAlike r) (symbol?.bind fun symbol => symbol.member? name)
      (symbol'?.bind fun symbol => symbol.member? (r.name name)) := by
  cases h with
  | none => exact .none
  | some same => exact same.member? name

end

/-! ### Tables -/

theorem Checked.alike_redefined {α β : Type} {r : Relabeling} {R : α → β → Prop} (name : Name)
    {line line' : Nat} (lines : r.lines line line') :
    Checked.Alike r R (redefined name line) (redefined (name.rename r) line') := by
  refine alike_violate (fun keeps => ?_) name.place
  rw [Name.rename, keeps]
  exact .redefinition name.value lines

namespace SymbolTable

/-- Both tables have the external functions, and behind them symbols that are alike. -/
def Alike (r : Relabeling) (table table' : SymbolTable) : Prop :=
  ∃ own own', table.symbols = externals ++ own ∧ table'.symbols = externals ++ own' ∧
    List.Forall₂ (Symbol.Alike r) own own'

variable {r : Relabeling} {table table' : SymbolTable}

theorem alike_initial (r : Relabeling) : initial.Alike r initial :=
  ⟨[], [], symbols_initial, symbols_initial, .nil⟩

namespace Alike

/-! #### Looking up -/

theorem looksLike (h : table.Alike r table') :
    List.Forall₂ (Symbol.LooksLike r) table.symbols table'.symbols := by
  obtain ⟨own, own', same, same', alike⟩ := h
  rw [same, same']
  apply List.rel_append
  · exact List.forall₂_same.mpr fun _ => Symbol.looksLike_external
  · exact alike.imp fun _ _ => Symbol.Alike.looksLike

theorem size_eq (h : table.Alike r table') : table'.size = table.size :=
  h.looksLike.length_eq.symm

theorem externals_le (h : table.Alike r table') : externals.length ≤ table.size := by
  obtain ⟨own, -, same, -, -⟩ := h
  rw [size, same, List.length_append]
  exact Nat.le_add_right _ _

theorem get? (h : table.Alike r table') (index : Nat) :
    Option.Rel (Symbol.LooksLike r) (table.get? index) (table'.get? index) :=
  rel_getElem? h.looksLike index

theorem findLast? {test test' : Symbol → Bool} (h : table.Alike r table')
    (same : ∀ symbol symbol', symbol.LooksLike r symbol' → test' symbol' = test symbol) :
    Option.Rel (Symbol.LooksLike r) (table.findLast? test) (table'.findLast? test') := by
  unfold SymbolTable.findLast?
  rw [lastIndex?_eq_of_forall₂ h.looksLike same]
  cases lastIndex? test table.symbols with
  | none => exact .none
  | some index => exact h.get? index

theorem named {symbol symbol' : Symbol} (h : symbol.LooksLike r symbol') (name : String) :
    symbol'.name = r.name name ↔ symbol.name = name := by
  rw [h.name]
  exact ⟨r.injective, congrArg r.name⟩

theorem find? (h : table.Alike r table') (name : String) :
    Option.Rel (Symbol.LooksLike r) (table.find? name) (table'.find? (r.name name)) :=
  h.findLast? fun _ _ same => by simp only [named same]

theorem findAtDepth? (h : table.Alike r table') (name : String) (depth : Nat) :
    Option.Rel (Symbol.LooksLike r) (table.findAtDepth? name depth)
      (table'.findAtDepth? (r.name name) depth) :=
  h.findLast? fun _ _ same => by simp only [named same, same.depth]

theorem findStruct? (h : table.Alike r table') (name : String) :
    table'.findStruct? (r.name name) = table.findStruct? name :=
  lastIndex?_eq_of_forall₂ h.looksLike fun _ _ same => by simp only [named same, same.cls]

theorem structAt? (h : table.Alike r table') (index : Nat) :
    Option.Rel (Symbol.LooksLike r) (table.structAt? index) (table'.structAt? index) :=
  rel_filter (h.get? index) fun _ _ same => by simp only [same.cls]

theorem typeName (h : table.Alike r table') (keeps : r.KeepsNames) (ty : Ty) :
    table'.typeName ty = table.typeName ty := by
  unfold SymbolTable.typeName
  cases ty.structIndex? with
  | none => rfl
  | some index =>
    rcases rel_cases (h.structAt? index) with ⟨none, none'⟩ | ⟨struct, struct', found, found', same⟩
    · simp only [Option.bind_some, none, none']
    · simp only [Option.bind_some, found, found', same.name, keeps struct.name]

/-- Names that were met make no difference. -/
theorem of_symbols_eq {other : SymbolTable} (h : other.Alike r table')
    (same : other.symbols = table.symbols) : table.Alike r table' := by
  obtain ⟨own, own', front, front', alike⟩ := h
  exact ⟨own, own', same ▸ front, front', alike⟩

theorem symbols_eq (h : table.Alike r table') (keeps : r.KeepsNames)
    (same : ∀ {line line'}, r.lines line line' → line' = line) :
    table'.symbols = table.symbols := by
  obtain ⟨own, own', front, front', alike⟩ := h
  rw [front, front']
  congr 1
  clear front front'
  induction alike with
  | nil => rfl
  | cons head _ ih => rw [head.eq keeps same, ih]

/-! #### Changing -/

theorem append {symbol symbol' : Symbol} {middle middle' : SymbolTable} (h : table.Alike r table')
    (added : symbol.Alike r symbol') (same : middle.symbols = table.symbols ++ [symbol])
    (same' : middle'.symbols = table'.symbols ++ [symbol']) : middle.Alike r middle' := by
  obtain ⟨own, own', front, front', alike⟩ := h
  refine ⟨own ++ [symbol], own' ++ [symbol'], ?_, ?_, List.rel_append alike (.cons added .nil)⟩
  · rw [same, front, List.append_assoc]
  · rw [same', front', List.append_assoc]

/-- What is not an external function can be changed. -/
theorem modify {change change' : Symbol → Symbol} {index : Nat} {middle middle' : SymbolTable}
    (h : table.Alike r table') (behind : externals.length ≤ index)
    (kept : ∀ symbol symbol', symbol.Alike r symbol' → (change symbol).Alike r (change' symbol'))
    (same : middle.symbols = table.symbols.modify index change)
    (same' : middle'.symbols = table'.symbols.modify index change') : middle.Alike r middle' := by
  obtain ⟨own, own', front, front', alike⟩ := h
  obtain ⟨i, rfl⟩ := Nat.exists_eq_add_of_le behind
  refine ⟨own.modify i change, own'.modify i change', ?_, ?_, forall₂_modify alike kept i⟩
  · rw [same, front, modify_append_right]
  · rw [same', front', modify_append_right]

theorem addArg {arg arg' : Symbol} {index : Nat} (h : table.Alike r table')
    (behind : externals.length ≤ index) (added : arg.PartAlike r arg') :
    (table.addArg index arg).Alike r (table'.addArg index arg') :=
  h.modify behind (fun _ _ alike => alike.addArg added) (symbols_addArg ..) (symbols_addArg ..)

theorem addMember {member member' : Symbol} {index : Nat} (h : table.Alike r table')
    (behind : externals.length ≤ index) (added : member.PartAlike r member') :
    (table.addMember index member).Alike r (table'.addMember index member') :=
  h.modify behind (fun _ _ alike => alike.addMember added) (symbols_addMember ..)
    (symbols_addMember ..)

theorem truncate {size : Nat} (h : table.Alike r table') (behind : externals.length ≤ size) :
    (table.truncate size).Alike r (table'.truncate size) := by
  obtain ⟨own, own', front, front', alike⟩ := h
  obtain ⟨count, rfl⟩ := Nat.exists_eq_add_of_le behind
  refine ⟨own.take count, own'.take count, ?_, ?_, List.forall₂_take count alike⟩
  · rw [symbols_truncate, front, List.take_length_add_append]
  · rw [symbols_truncate, front', List.take_length_add_append]

theorem declare (h : table.Alike r table') {symbol symbol' : Symbol}
    (added : symbol.Alike r symbol') (name : Name) :
    Checked.Alike r (SymbolTable.Alike r) (table.declare name symbol)
      (table'.declare (name.rename r) symbol') := by
  rw [declare_eq, declare_eq, added.name, added.depth]
  rcases rel_cases (h.findAtDepth? symbol.name symbol.depth) with
      ⟨none, none'⟩ | ⟨previous, previous', found, found', same⟩
  · rw [none, none']
    exact Checked.alike_pure (h.append added rfl rfl)
  · rw [found, found']
    exact Checked.alike_redefined name same.line

end Alike

end SymbolTable

end PlainC
