import PlainC.Proofs.Declaring.Decl
import PlainC.Proofs.Inserting.Declarations

set_option autoImplicit false

/-!
What declarations leave behind is settled: no number in it can be one that is given later. So
nothing in it changes where symbols are put behind it.
-/

namespace PlainC

open Checked
open SymbolTable (externals)

/-! ### Settled symbols -/

/-- If the base type is a struct, then it has one of the first `size` indices. -/
def Base.Below (size : Nat) (base : Base) : Prop := ∀ index, base = .struct index → index < size

/-- A symbol at the top level, with structs among the first `size` symbols. -/
structure Symbol.Settled (size : Nat) (symbol : Symbol) : Prop where
  base : symbol.ty.base.Below size
  depth : symbol.depth = 0
  args : ∀ arg ∈ symbol.args, arg.ty.base.Below size
  members : ∀ member ∈ symbol.members, member.ty.base.Below size ∧ member.depth = 0

/-- All symbols are settled, and there was a depth for each function. -/
structure Declared.Settled (declared : Declared) : Prop where
  symbols : ∀ symbol ∈ declared.table.symbols, symbol.Settled declared.table.size
  depth : declared.depth = Insertion.functions declared.table.symbols

section

variable {size : Nat} {base : Base} {symbol : Symbol}

theorem Base.Below.mono {size' : Nat} (below : base.Below size) (le : size ≤ size') :
    base.Below size' :=
  fun index same => Nat.lt_of_lt_of_le (below index same) le

theorem Base.Below.renumber_eq {ins : Insertion} (below : base.Below ins.front.length) :
    base.renumber ins = base := by
  cases base with
  | struct index => simp [renumber, Insertion.index, below index rfl]
  | int | double | char | void => rfl

theorem Ty.renumber_of_below {ins : Insertion} {ty : Ty} (below : ty.base.Below ins.front.length) :
    ty.renumber ins = ty := by
  rw [renumber, below.renumber_eq]

namespace Symbol.Settled

theorem mono {size' : Nat} (settled : symbol.Settled size) (le : size ≤ size') :
    symbol.Settled size' where
  base := settled.base.mono le
  depth := settled.depth
  args arg among := (settled.args arg among).mono le
  members member among := ⟨(settled.members member among).1.mono le, (settled.members member among).2⟩

/-- Settled symbols look the same with new numbers for what comes later. -/
theorem renumbered {ins : Insertion} (settled : symbol.Settled ins.front.length) :
    symbol.Renumbered ins symbol where
  name := rfl
  cls := rfl
  ty := (Ty.renumber_of_below settled.base).symm
  depth := by rw [settled.depth, Insertion.depth_zero]
  args := List.map_congr_left fun arg among => (Ty.renumber_of_below (settled.args arg among)).symm
  members := by
    have same : ∀ member ∈ symbol.members, member.renumberPart ins = id member := by
      intro member among
      obtain ⟨below, depth⟩ := settled.members member among
      rw [renumberPart, Ty.renumber_of_below below, depth, Insertion.depth_zero, ← depth]
      cases member
      rfl
    rw [List.map_congr_left same, List.map_id]

end Symbol.Settled

end

/-! ### Declarations -/

variable {table : SymbolTable}

theorem BaseName.Denotes.below {name : BaseName} {base : Base} (h : name.Denotes table base) :
    base.Below table.size := by
  rintro index rfl
  exact h.lt_size

theorem ResultType.Denotes.below {result : ResultType} {ty : Ty} (h : result.Denotes table ty) :
    ty.base.Below table.size := by
  cases h with
  | void => exact nofun
  | value denotes | array denotes => exact denotes.below

theorem Initializer.Sizes.base_eq {ty ty' : Ty} {initializer : Initializer}
    (h : initializer.Sizes table ty ty') : ty'.base = ty.base := by
  cases h <;> rfl

theorem Declarator.HasType.base_eq {base : Base} {declarator : Declarator} {ty : Ty}
    (h : declarator.HasType table base ty) : ty.base = base := by
  cases h with
  | plain => rfl
  | initialized _ sizes => exact sizes.base_eq

theorem Variables.settled {base : Base} {size : Nat} (below : base.Below size)
    {declarators : List Declarator} {symbols : List Symbol}
    (h : Variables base table declarators symbols) : ∀ symbol ∈ symbols, symbol.Settled size := by
  induction h with
  | nil => nofun
  | cons hasType _ _ ih =>
    rw [List.forall_mem_cons]
    refine ⟨⟨?_, rfl, nofun, nofun⟩, ih⟩
    simpa [topLevelSymbol, hasType.base_eq] using below

theorem Variables.functions_eq {base : Base} {declarators : List Declarator} {symbols : List Symbol}
    (h : Variables base table declarators symbols) : Insertion.functions symbols = 0 := by
  induction h with
  | nil => rfl
  | cons _ _ _ ih => simpa [Insertion.functions, topLevelSymbol] using ih

namespace Decl.Declares

variable {functions : Nat} {decl : Decl} {symbols : List Symbol}

theorem functions_eq (h : decl.Declares table functions symbols) :
    Insertion.functions symbols = decl.functions := by
  cases h with
  | struct | function => rfl
  | vars _ variables' => exact variables'.functions_eq

theorem settled (h : decl.Declares table functions symbols) :
    ∀ symbol ∈ symbols, symbol.Settled (table.size + symbols.length) := by
  cases h with
  | struct members =>
    rw [List.forall_mem_singleton]
    refine ⟨?_, rfl, nofun, fun member among => ?_⟩
    · rintro index ⟨⟩
      exact Nat.lt_succ_self _
    · obtain ⟨⟨name, declarator⟩, -, isMember⟩ := exists_of_mem_right members among
      cases isMember with
      | intro denotes => exact ⟨denotes.below.mono (Nat.le_add_right _ _), rfl⟩
  | function result args =>
    rw [List.forall_mem_singleton]
    refine ⟨result.below.mono (Nat.le_add_right _ _), rfl, fun arg among => ?_, nofun⟩
    obtain ⟨slot, -, isArg⟩ := exists_of_mem_right args among
    cases isArg with
    | intro denotes => exact denotes.below.mono (Nat.le_add_right _ _)
  | vars denotes variables' => exact variables'.settled (denotes.below.mono (Nat.le_add_right _ _))

end Decl.Declares

/-- A declaration keeps everything settled. -/
theorem Decl.settled_of_gives {decl : Decl} {declared declared' : Declared} (formed : decl.Formed)
    (given : (decl.check declared).Gives declared') (settled : declared.Settled) :
    declared'.Settled := by
  obtain ⟨symbols, declares, same, depth⟩ := declares_of_gives formed given
  have size : declared'.table.size = declared.table.size + symbols.length := by
    rw [SymbolTable.size, same, List.length_append, SymbolTable.size]
  constructor
  · intro symbol among
    rw [same] at among
    rw [size]
    rcases List.mem_append.mp among with old | new
    · exact (settled.symbols symbol old).mono (Nat.le_add_right _ _)
    · exact declares.settled symbol new
  · rw [depth, settled.depth, same, ← declares.functions_eq, Insertion.functions,
      Insertion.functions, Insertion.functions, List.countP_append]

theorem Declared.settled_initial : Settled ⟨.initial, 0⟩ := by
  have plain : ∀ symbol ∈ externals, symbol.ty.structIndex? = none ∧ symbol.depth = 0 ∧
      symbol.members = [] ∧ ∀ arg ∈ symbol.args, arg.ty.structIndex? = none := by decide
  have below {ty : Ty} {size : Nat} (none : ty.structIndex? = none) : ty.base.Below size := by
    intro index same
    rw [Ty.structIndex?, same] at none
    cases none
  constructor
  · intro symbol among
    rw [SymbolTable.symbols_initial] at among
    obtain ⟨base, depth, members, args⟩ := plain symbol among
    refine ⟨below base, depth, fun arg inside => below (args arg inside), ?_⟩
    rw [members]
    exact fun _ inside => absurd inside List.not_mem_nil
  · rw [SymbolTable.symbols_initial]
    rfl

/-- What declarations leave behind the external functions is settled. -/
theorem Decl.settled_of_foldlM {decls : List Decl} (formed : ∀ decl ∈ decls, decl.Formed)
    {declared declared' : Declared} (settled : declared.Settled)
    (given : (decls.foldlM Decl.check declared).Gives declared') : declared'.Settled := by
  induction decls generalizing declared with
  | nil =>
    obtain rfl := gives_pure.mp given
    exact settled
  | cons decl decls ih =>
    rw [List.foldlM_cons, gives_bind] at given
    obtain ⟨middle, checked, given⟩ := given
    rw [List.forall_mem_cons] at formed
    exact ih formed.2 (Decl.settled_of_gives formed.1 checked settled) given

end PlainC
