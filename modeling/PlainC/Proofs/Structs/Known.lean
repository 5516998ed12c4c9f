import PlainC.Fault
import PlainC.Proofs.Machine.Transition

set_option autoImplicit false

/-!
Known structs: a struct type is the index of a declaration, which the table has as long as the type
is in use, and by which the type is named in messages and listings.
-/

namespace PlainC

/-- The types in a symbol: its own and those of its arguments and members. -/
def Symbol.types (symbol : Symbol) : List Ty :=
  symbol.ty :: (symbol.args ++ symbol.members).map Symbol.ty

/-- The types that are named in a violation. -/
def Violation.types : Violation → List String
  | bracesForScalar ty | notIndexable ty | indexNotInt ty | memberOfNonStruct ty
  | noSuchMember ty _ | invalidOperand ty _ | arrayAssigned ty | returnWithoutValue _ ty => [ty]
  | elementMismatch ty ty' | initializerMismatch ty ty' | argumentMismatch _ _ ty ty'
  | castMismatch ty ty' | assignMismatch ty ty' | returnMismatch ty _ ty' => [ty, ty']
  | _ => []

/-- The types that are named in the message of a fault. -/
def Fault.types (fault : Fault) : List String :=
  match fault.cause with
  | .violation broken => broken.types
  | .literal _ | .unexpected _ _ | .noTokens => []

namespace SymbolTable

/-- If a base type is a struct, then the table has the declaration of it. -/
def Knows (table : SymbolTable) (base : Base) : Prop :=
  ∀ index, base = .struct index → index < table.size ∧ ∃ struct, table.structAt? index = some struct

/-- The table has the declarations of all structs in its symbols. -/
def Grounded (table : SymbolTable) : Prop :=
  ∀ symbol ∈ table.symbols, ∀ ty ∈ symbol.types, table.Knows ty.base

/-- Each struct of a table is the same struct in a later table, where it can have more members. -/
def Keeps (table table' : SymbolTable) : Prop :=
  ∀ index struct, table.structAt? index = some struct →
    ∃ struct', table'.structAt? index = some struct' ∧ struct'.entry = struct.entry ∧
      struct.members <+: struct'.members

/-- The text is a type with the name of its struct, if it is one. -/
def Spells (table : SymbolTable) (ty : Ty) (text : String) : Prop :=
  match ty.base with
  | .struct index => ∃ struct, table.structAt? index = some struct ∧
    text = "struct " ++ struct.name ++ ty.extent.text
  | base => text = base.text ++ ty.extent.text

section

variable {table table' : SymbolTable} {index : Nat} {struct : Symbol} {base : Base}

theorem structAt?_iff : table.structAt? index = some struct ↔
    table.symbols[index]? = some struct ∧ struct.cls = .struct := by
  simp [structAt?, get?]

theorem knows_of_structAt? (h : table.structAt? index = some struct) :
    table.Knows (.struct index) := by
  rintro _ ⟨⟩
  exact ⟨(List.getElem?_eq_some_iff.mp (structAt?_iff.mp h).1).1, struct, h⟩

/-- What is no struct needs no declaration. -/
theorem knows_of_ne (other : ∀ index, base ≠ .struct index) : table.Knows base :=
  fun index same => absurd same (other index)

theorem knows_symbol (grounded : table.Grounded) {symbol : Symbol} (mem : symbol ∈ table.symbols) :
    table.Knows symbol.ty.base :=
  grounded symbol mem symbol.ty List.mem_cons_self

theorem knows_arg (grounded : table.Grounded) {symbol arg : Symbol} (mem : symbol ∈ table.symbols)
    (inside : arg ∈ symbol.args) : table.Knows arg.ty.base :=
  grounded symbol mem arg.ty (List.mem_cons_of_mem _
    (List.mem_map_of_mem (List.mem_append_left _ inside)))

theorem knows_member (grounded : table.Grounded) {symbol member : Symbol}
    (mem : symbol ∈ table.symbols) (inside : member ∈ symbol.members) :
    table.Knows member.ty.base :=
  grounded symbol mem member.ty (List.mem_cons_of_mem _
    (List.mem_map_of_mem (List.mem_append_right _ inside)))

/-- The name of a known type is never the number of a struct. -/
theorem spells_typeName {ty : Ty} (known : table.Knows ty.base) :
    table.Spells ty (table.typeName ty) := by
  unfold Spells typeName Ty.structIndex?
  cases same : ty.base with
  | struct index =>
    obtain ⟨-, struct, found⟩ := known index same
    exact ⟨struct, found, by simp [found]⟩
  | int | double | char | void => rfl

/-! ### Later tables -/

theorem Keeps.refl (table : SymbolTable) : table.Keeps table :=
  fun _ struct found => ⟨struct, found, rfl, List.prefix_refl _⟩

theorem Keeps.trans {table'' : SymbolTable} (first : table.Keeps table')
    (second : table'.Keeps table'') : table.Keeps table'' := by
  intro index struct found
  obtain ⟨struct', found', entry', members'⟩ := first index struct found
  obtain ⟨struct'', found'', entry'', members''⟩ := second index struct' found'
  exact ⟨struct'', found'', entry''.trans entry', members'.trans members''⟩

theorem Knows.keep (known : table.Knows base) (keeps : table.Keeps table') :
    table'.Knows base := by
  intro index same
  obtain ⟨-, struct, found⟩ := known index same
  obtain ⟨struct', found', -, -⟩ := keeps index struct found
  exact knows_of_structAt? found' index rfl

theorem keeps_of_append {more : List Symbol} (same : table'.symbols = table.symbols ++ more) :
    table.Keeps table' := by
  intro index struct found
  obtain ⟨at_index, isStruct⟩ := structAt?_iff.mp found
  refine ⟨struct, structAt?_iff.mpr ⟨?_, isStruct⟩, rfl, List.prefix_refl _⟩
  rw [same, List.getElem?_append_left (List.getElem?_eq_some_iff.mp at_index).1, at_index]

theorem keeps_of_modify {place : Nat} {change : Symbol → Symbol}
    (same : table'.symbols = table.symbols.modify place change)
    (entry : ∀ symbol, (change symbol).entry = symbol.entry)
    (members : ∀ symbol, symbol.members <+: (change symbol).members) : table.Keeps table' := by
  intro index struct found
  obtain ⟨at_index, isStruct⟩ := structAt?_iff.mp found
  by_cases here : place = index
  · have isStruct' : (change struct).cls = .struct :=
      (congrArg Entry.cls (entry struct)).trans isStruct
    refine ⟨change struct, structAt?_iff.mpr ⟨?_, isStruct'⟩, entry struct, members struct⟩
    simp [same, here, at_index]
  · refine ⟨struct, structAt?_iff.mpr ⟨?_, isStruct⟩, rfl, List.prefix_refl _⟩
    simp [same, here, at_index]

theorem keeps_of_take {size : Nat} (same : table'.symbols = table.symbols.take size)
    (inside : ∀ index struct, table.structAt? index = some struct → index < size) :
    table.Keeps table' := by
  intro index struct found
  obtain ⟨at_index, isStruct⟩ := structAt?_iff.mp found
  refine ⟨struct, structAt?_iff.mpr ⟨?_, isStruct⟩, rfl, List.prefix_refl _⟩
  rw [same, List.getElem?_take_of_lt (inside index struct found), at_index]

/-! ### Changes -/

/-- A later table is grounded if the types that are new to it are known. -/
theorem Grounded.later (grounded : table.Grounded) (keeps : table.Keeps table')
    (added : ∀ symbol' ∈ table'.symbols, ∀ ty ∈ symbol'.types, table'.Knows ty.base ∨
      ∃ symbol ∈ table.symbols, ty ∈ symbol.types) : table'.Grounded := by
  intro symbol' mem' ty inside
  rcases added symbol' mem' ty inside with known | ⟨symbol, mem, old⟩
  · exact known
  · exact (grounded symbol mem ty old).keep keeps

theorem Grounded.append (grounded : table.Grounded) {symbol : Symbol}
    (same : table'.symbols = table.symbols ++ [symbol])
    (known : ∀ ty ∈ symbol.types, table'.Knows ty.base) : table'.Grounded := by
  refine grounded.later (keeps_of_append same) fun symbol' mem ty inside => ?_
  rw [same] at mem
  rcases List.mem_append.mp mem with old | new
  · exact .inr ⟨symbol', old, inside⟩
  · obtain rfl := List.mem_singleton.mp new
    exact .inl (known ty inside)

theorem Grounded.modify (grounded : table.Grounded) {place : Nat} {change : Symbol → Symbol}
    (same : table'.symbols = table.symbols.modify place change) (keeps : table.Keeps table')
    (known : ∀ symbol, ∀ ty ∈ (change symbol).types, ty ∈ symbol.types ∨ table'.Knows ty.base) :
    table'.Grounded := by
  refine grounded.later keeps fun symbol' mem ty inside => ?_
  rw [same] at mem
  obtain ⟨index, found⟩ := List.mem_iff_getElem?.mp mem
  rw [List.getElem?_modify] at found
  obtain ⟨symbol, at_index, rfl⟩ := Option.map_eq_some_iff.mp found
  have old := List.mem_of_getElem? at_index
  split at inside
  · exact (known symbol ty inside).symm.imp_right fun before => ⟨symbol, old, before⟩
  · exact .inr ⟨symbol, old, inside⟩

theorem Grounded.take (grounded : table.Grounded) {size : Nat}
    (same : table'.symbols = table.symbols.take size) (keeps : table.Keeps table') :
    table'.Grounded := by
  refine grounded.later keeps fun symbol mem ty inside => .inr ⟨symbol, ?_, inside⟩
  rw [same] at mem
  exact List.mem_of_mem_take mem

end

end SymbolTable

/-- Each type in the message of a fault has the name of its struct, if it is one. -/
def Fault.Shows (table : SymbolTable) (fault : Fault) : Prop :=
  ∀ text ∈ fault.types, ∃ ty, table.Spells ty text

theorem Fault.shows_of_types_eq_nil {table : SymbolTable} {fault : Fault}
    (none : fault.types = []) : fault.Shows table := by
  intro text mem
  rw [none] at mem
  cases mem

theorem Fault.shows_typeName {table : SymbolTable} {broken : Violation} {place : Place}
    (types : List Ty) (same : broken.types = types.map table.typeName)
    (known : ∀ ty ∈ types, table.Knows ty.base) :
    Fault.Shows table ⟨.violation broken, place⟩ := by
  intro text mem
  obtain ⟨ty, inside, rfl⟩ := List.mem_map.mp (same ▸ mem : text ∈ types.map table.typeName)
  exact ⟨ty, SymbolTable.spells_typeName (known ty inside)⟩

end PlainC
