import PlainC.Proofs.Table.Changing
import PlainC.Proofs.Visits.Keeping
import PlainC.Proofs.Void.Expressions

set_option autoImplicit false

/-!
Nothing that a program declares is void but functions. A variable, a parameter and a member have the
base type that is written in front of them, and an initializer only gives a size.
-/

namespace PlainC

open Checked

/-! ### Types -/

theorem BaseName.ne_void {table : SymbolTable} {name : BaseName} {base : Base}
    (h : (name.resolve table).Gives base) : base ≠ .void := by
  cases gives_resolve.mp h <;> nofun

theorem Ty.isVoid_of_base {base : Base} {extent : Extent} (value : base ≠ .void) :
    Ty.isVoid ⟨base, extent⟩ = false :=
  decide_eq_false value

theorem Initializer.base_of_fit {start : Place} {ty ty' : Ty} {count : Nat}
    (h : (fit start ty count).Gives ty') : ty'.base = ty.base := by
  unfold fit at h
  split at h
  · simp only [gives_ite, gives_violate, gives_pure, and_false, false_or] at h
    rw [h.2]
  · rw [gives_pure.mp h]
  · rw [gives_pure.mp h]

theorem Initializer.base_of_type {table : SymbolTable} {ty ty' : Ty} {init : Initializer}
    (h : (init.type table ty).Gives ty') : ty'.base = ty.base := by
  cases init with
  | noElements opening closing =>
    simp only [Initializer.type, gives_bind] at h
    obtain ⟨_, -, fits⟩ := h
    exact base_of_fit fits
  | elements opening args closing =>
    simp only [Initializer.type, gives_bind] at h
    obtain ⟨_, -, _, -, _, -, fits⟩ := h
    exact base_of_fit fits
  | value expr =>
    simp only [Initializer.type, gives_bind] at h
    obtain ⟨source, -, h⟩ := h
    split at h
    · simp at h
    · split at h
      · exact base_of_fit h
      · rw [gives_pure.mp h]

theorem Declarator.base_of_type {region : Region} {table : SymbolTable} {name : Name} {base : Base}
    {declarator : Declarator} {ty : Ty} (h : (declarator.type region table name base).Gives ty) :
    ty.base = base := by
  simp only [Declarator.type, gives_bind] at h
  obtain ⟨extent, -, h⟩ := h
  repeat' split at h
  · rw [gives_pure.mp h]
  · exact absurd h gives_violate
  · exact Initializer.base_of_type h

/-! ### Symbols -/

namespace Symbol

variable {symbol part : Symbol}

theorem valued_of_value (value : symbol.ty.isVoid = false) (args : symbol.args = [])
    (members : symbol.members = []) : symbol.Valued := by
  refine ⟨fun void => absurd (value.symm.trans void) nofun, ?_⟩
  rw [args, members]
  exact List.forall_mem_nil _

theorem Valued.addArg (valued : symbol.Valued) (value : part.ty.isVoid = false) :
    Valued { symbol with args := symbol.args ++ [part] } := by
  refine ⟨valued.own, fun other among => ?_⟩
  simp only [List.append_assoc, List.mem_append, List.mem_singleton] at among
  rcases among with among | rfl | among
  · exact valued.parts other (List.mem_append_left _ among)
  · exact value
  · exact valued.parts other (List.mem_append_right _ among)

theorem Valued.addMember (valued : symbol.Valued) (value : part.ty.isVoid = false) :
    Valued { symbol with members := symbol.members ++ [part] } := by
  refine ⟨valued.own, fun other among => ?_⟩
  rw [← List.append_assoc, List.mem_append, List.mem_singleton] at among
  rcases among with among | rfl
  · exact valued.parts other among
  · exact value

end Symbol

/-! ### Tables -/

namespace SymbolTable

variable {table table' : SymbolTable} {symbol : Symbol} {index : Nat}

theorem Valued.append (valued : table.Valued) (added : symbol.Valued)
    (same : table'.symbols = table.symbols ++ [symbol]) : table'.Valued := by
  unfold Valued
  rw [same]
  exact List.forall_mem_append.mpr ⟨valued, List.forall_mem_singleton.mpr added⟩

theorem Valued.modify {change : Symbol → Symbol} (valued : table.Valued)
    (keeps : ∀ symbol, symbol.Valued → (change symbol).Valued)
    (same : table'.symbols = table.symbols.modify index change) : table'.Valued := by
  intro symbol among
  rw [same] at among
  obtain ⟨i, found⟩ := List.getElem?_of_mem among
  rw [List.getElem?_modify, Option.map_eq_map, Option.map_eq_some_iff] at found
  obtain ⟨old, found, rfl⟩ := found
  have old := valued old (List.mem_of_getElem? found)
  split
  · exact keeps _ old
  · exact old

theorem Valued.declare {name : Name} (valued : table.Valued) (added : symbol.Valued)
    (h : (table.declare name symbol).Gives table') : table'.Valued := by
  obtain ⟨-, rfl⟩ := gives_declare.mp h
  exact valued.append added rfl

theorem valued_initial : initial.Valued := by
  have own : ∀ symbol ∈ externals, symbol.ty.isVoid = true →
      (symbol.cls = .function ∨ symbol.cls = .external) ∧ symbol.ty = .void := by decide
  have parts : ∀ symbol ∈ externals, ∀ part ∈ symbol.args ++ symbol.members,
      part.ty.isVoid = false := by decide
  intro symbol among
  rw [symbols_initial] at among
  exact ⟨own symbol among, parts symbol among⟩

end SymbolTable

open SymbolTable

variable {table table' : SymbolTable}

theorem Region.valued_declare {region : Region} {name : Name} {ty : Ty} (valued : table.Valued)
    (value : ty.isVoid = false) (h : (region.declare table name ty).Gives table') :
    table'.Valued := by
  have added : (region.variableSymbol name ty).Valued := Symbol.valued_of_value value rfl rfl
  have changed := symbols_declare h
  cases region with
  | topLevel | body depth => exact valued.append added changed.2
  | members index struct => exact valued.modify (fun _ old => old.addMember value) changed

theorem Declarator.valued_declare {region : Region} {base : Base} {declarator : Declarator}
    (valued : table.Valued) (value : base ≠ .void)
    (h : (declarator.declare region base table).Gives table') : table'.Valued := by
  obtain ⟨name, ty, -, typed, declared⟩ := gives_declare.mp h
  have isValue : ty.isVoid = false := Ty.isVoid_of_base (base_of_type typed ▸ value)
  exact Region.valued_declare valued isValue declared

theorem VarDecl.valued_declare {region : Region} {decl : VarDecl} (valued : table.Valued)
    (h : (decl.declare region table).Gives table') : table'.Valued := by
  simp only [VarDecl.declare, gives_bind, gives_pure] at h
  obtain ⟨base, resolved, middle, declared, _, -, rfl⟩ := h
  refine keeps_foldlM (fun declarator _ _ valued given => ?_) valued declared
  exact Declarator.valued_declare valued (BaseName.ne_void resolved) given

theorem Param.valued_declare {index depth : Nat} {slot : Slot Param} (valued : table.Valued)
    (h : (Param.declare index depth table slot).Gives table') : table'.Valued := by
  obtain ⟨param, base, name, extent, -, resolved, -, -, -, rfl⟩ := gives_declare.mp h
  have value : (Param.symbol depth name base extent).ty.isVoid = false :=
    Ty.isVoid_of_base (BaseName.ne_void resolved)
  refine Valued.modify ?_ (fun _ old => old.addArg value) (symbols_addArg _ _ _)
  exact valued.append (Symbol.valued_of_value value rfl rfl) rfl

theorem ResultType.valued_declare {result : ResultType} {name : Name} {ty : Ty}
    (valued : table.Valued) (resolved : (result.resolve table).Gives ty)
    (h : (table.declare name (topLevelSymbol name .function ty)).Gives table') :
    table'.Valued := by
  refine valued.declare ⟨fun void => ⟨.inl rfl, ?_⟩, List.forall_mem_nil _⟩ h
  cases result with
  | void word => exact gives_pure.mp resolved
  | value base | array base star =>
    simp only [resolve, gives_bind, gives_pure] at resolved
    obtain ⟨base, resolved, rfl⟩ := resolved
    exact absurd (of_decide_eq_true void) (BaseName.ne_void resolved)

/-- Only functions are void wherever the check of a program comes to. -/
theorem SymbolTable.valued_invariant : Invariant Valued where
  initial := valued_initial
  vars := VarDecl.valued_declare
  param := Param.valued_declare
  struct valued := valued.declare (Symbol.valued_of_value rfl rfl rfl)
  function := ResultType.valued_declare
  truncate _ valued symbol among := valued symbol (List.mem_of_mem_take among)

end PlainC
