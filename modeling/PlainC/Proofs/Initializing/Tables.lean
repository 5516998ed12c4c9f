import PlainC.Proofs.Initializing.Extents
import PlainC.Proofs.Initializing.Steps

set_option autoImplicit false

/-!
The extents in the symbol table. Whatever a program declares has a proper extent, if there are not
more elements in braces anywhere than can be declared.
-/

namespace PlainC

open Checked

variable {table table' : SymbolTable} {symbol : Symbol}

/-! ### Changes -/

theorem Symbol.mem_types_addMember {part : Symbol} {ty : Ty} :
    ty ∈ types { symbol with members := symbol.members ++ [part] } ↔
      ty ∈ symbol.types ∨ ty = part.ty := by
  simp [types, or_assoc]

theorem Symbol.mem_types_addArg {part : Symbol} {ty : Ty} :
    ty ∈ types { symbol with args := symbol.args ++ [part] } ↔
      ty ∈ symbol.types ∨ ty = part.ty := by
  simp only [types, List.map_append, List.map_cons, List.map_nil, List.mem_cons, List.mem_append,
    List.not_mem_nil, or_false, or_assoc]
  rw [or_comm (a := ty = part.ty)]

namespace SymbolTable

/-- A symbol without arguments and members has one type. -/
theorem IsProper.append (proper : table.IsProper) (added : symbol.ty.extent.IsProper)
    (alone : symbol.types = [symbol.ty]) (same : table'.symbols = table.symbols ++ [symbol]) :
    table'.IsProper := by
  unfold IsProper
  rw [same]
  refine List.forall_mem_append.mpr ⟨proper, List.forall_mem_singleton.mpr ?_⟩
  rw [alone]
  exact List.forall_mem_singleton.mpr added

theorem IsProper.modify {index : Nat} {change : Symbol → Symbol} (proper : table.IsProper)
    (keeps : ∀ symbol, ∀ ty ∈ (change symbol).types, ty ∈ symbol.types ∨ ty.extent.IsProper)
    (same : table'.symbols = table.symbols.modify index change) : table'.IsProper := by
  intro symbol among ty inside
  rw [same] at among
  obtain ⟨i, found⟩ := List.mem_iff_getElem?.mp among
  rw [List.getElem?_modify, Option.map_eq_map, Option.map_eq_some_iff] at found
  obtain ⟨old, found, rfl⟩ := found
  have old_mem := List.mem_of_getElem? found
  split at inside
  · rcases keeps old ty inside with before | proper'
    · exact proper old old_mem ty before
    · exact proper'
  · exact proper old old_mem ty inside

theorem isProper_initial : initial.IsProper := by
  have proper : ∀ symbol ∈ externals, ∀ ty ∈ symbol.types,
      ty.extent = .scalar ∨ ty.extent = .unsized := by decide
  intro symbol among ty inside
  rw [symbols_initial] at among
  rcases proper symbol among ty inside with scalar | unsized
  · exact Extent.isProper_of_scalar scalar
  · rw [unsized]
    trivial

end SymbolTable

theorem Region.isProper_declare {region : Region} {name : Name} {ty : Ty}
    (proper : table.IsProper) (added : ty.extent.IsProper)
    (h : (region.declare table name ty).Gives table') : table'.IsProper := by
  have changed := Region.symbols_declare h
  cases region with
  | topLevel | body => exact proper.append added rfl changed.2
  | members index struct =>
    refine proper.modify (fun owner ty' inside => ?_) changed
    rcases Symbol.mem_types_addMember.mp inside with before | rfl
    · exact .inl before
    · exact .inr added

theorem Declarator.isProper_declare {region : Region} {base : Base} {declarator : Declarator}
    (proper : table.IsProper) (formed : declarator.Formed) (short : declarator.IsShort)
    (h : (declarator.declare region base table).Gives table') : table'.IsProper := by
  obtain ⟨name, ty, -, typed, declared⟩ := Declarator.gives_declare.mp h
  have hasType := ((Declarator.gives_type formed).mp typed).1
  exact Region.isProper_declare proper (hasType.isProper proper short) declared

theorem Param.isProper_declare {index depth : Nat} {slot : Slot Param} (proper : table.IsProper)
    (h : (Param.declare index depth table slot).Gives table') : table'.IsProper := by
  obtain ⟨param, base, name, extent, -, -, -, -, -, rfl⟩ := Param.gives_declare.mp h
  have added : (Param.symbol depth name base extent).ty.extent.IsProper := by
    cases extent <;> trivial
  refine (proper.append added rfl rfl).modify (fun owner ty inside => ?_)
    (SymbolTable.symbols_addArg _ _ _)
  rcases Symbol.mem_types_addArg.mp inside with before | rfl
  · exact .inl before
  · exact .inr added

/-- What a function gives has no size. -/
theorem ResultType.isProper {result : ResultType} {ty : Ty} (h : (result.resolve table).Gives ty) :
    ty.extent.IsProper := by
  cases result with
  | void =>
    obtain rfl := gives_pure.mp h
    trivial
  | value | array =>
    simp only [ResultType.resolve, gives_bind, gives_pure] at h
    obtain ⟨base, -, rfl⟩ := h
    trivial

/-! ### Steps -/

namespace Machine

variable {s s' : State}

/-- A step keeps the extents in the table proper, if the declarator that comes next is short. -/
theorem isProper_step (proper : s.table.IsProper)
    (sound : ∀ declarator ∈ s.left, declarator.Formed ∧ declarator.IsShort)
    (h : s.step.Gives s') : s'.table.IsProper := by
  cases move_of_gives h with
  | declarator underway declared =>
    obtain ⟨formed, short⟩ :=
      sound _ (State.mem_left_of_next (State.next?_iff.mpr ⟨_, _, underway⟩))
    exact Declarator.isProper_declare proper formed short declared
  | @enterStruct table _ _ _ _ name _ _ _ _ declared =>
    obtain ⟨-, rfl⟩ := SymbolTable.gives_declare.mp declared
    have added : (topLevelSymbol name .struct (.struct table.size)).ty.extent.IsProper := trivial
    exact proper.append added rfl rfl
  | enterFunction resolved declared =>
    obtain ⟨-, rfl⟩ := SymbolTable.gives_declare.mp declared
    exact proper.append (ResultType.isProper resolved) rfl rfl
  | parameter declared => exact Param.isProper_declare proper declared
  | leaveFunction => exact fun symbol among => proper symbol (List.mem_of_mem_take among)
  | finished | leaveVars | enterVars | enterMembers | leaveStruct | enterBody | task => exact proper

/-- All arrays have proper sizes in all states. -/
theorem Reachable.isProper {decls : List Decl} {past : List Declaration}
    (sound : ∀ declarator ∈ decls.flatMap Decl.declarators, declarator.Formed ∧ declarator.IsShort)
    (h : Reachable decls past s) : s.table.IsProper := by
  induction h with
  | start => exact SymbolTable.isProper_initial
  | step reached given ih =>
    exact isProper_step ih (fun declarator left => sound declarator (reached.left_subset left)) given

end Machine

end PlainC
