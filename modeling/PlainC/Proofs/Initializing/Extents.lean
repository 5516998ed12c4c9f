import PlainC.Proofs.Declaring.Variables
import PlainC.Proofs.Structs.Known
import PlainC.Proofs.Void.Expressions

set_option autoImplicit false

/-!
What initializers make of the extents of variables. The check of a declarator finds just the types of
the judgement, and if all arrays in the table have a proper size, then so have all values and all
variables that are declared.
-/

namespace PlainC

open Checked

/-! ### Checks of initializers -/

namespace Initializer

variable {table : SymbolTable} {ty ty' : Ty}

theorem gives_fit {start : Place} {count : Nat} (array : ty.extent ≠ .scalar) :
    (fit start ty count).Gives ty' ↔
      ∃ extent, ty.extent.Takes count extent ∧ ty' = ⟨ty.base, extent⟩ := by
  refine ⟨takes_of_fit array, ?_⟩
  rintro ⟨extent, takes, rfl⟩
  obtain ⟨base, declared⟩ := ty
  cases takes with
  | sized fits => simp [fit, Nat.not_lt.mpr fits]
  | unsized some => simp [fit, some]
  | empty => simp [fit]

theorem gives_checkElements {element : Ty} : ∀ {args : Args}, args.Formed →
    ((checkElements table element args).Gives () ↔ args.Elements table element)
  | .last arg, formed => by
    refine ⟨elements_of_gives formed, fun elements => ?_⟩
    cases elements with
    | last typed accepts => exact (gives_checkElement formed).mpr ⟨_, _, typed, accepts⟩
  | .more arg comma rest, formed => by
    refine ⟨elements_of_gives formed, fun elements => ?_⟩
    cases elements with
    | more typed accepts others =>
      have first := (gives_checkElement formed.1 (a := ())).mpr ⟨_, _, typed, accepts⟩
      exact gives_bind.mpr ⟨(), first, (gives_checkElements formed.2).mpr others⟩

/-- What takes a number of elements is an array. -/
theorem ne_scalar_of_takes {declared extent : Extent} {count : Nat}
    (takes : declared.Takes count extent) : declared ≠ .scalar := by
  cases takes <;> nofun

/-- The check of an initializer finds just the type that the judgement allows. -/
theorem gives_type {initializer : Initializer} (formed : initializer.Formed) :
    (initializer.type table ty).Gives ty' ↔ initializer.Sizes table ty ty' := by
  refine ⟨sizes_of_gives formed, fun sizes => ?_⟩
  cases sizes with
  | noElements takes =>
    have array := ne_scalar_of_takes takes
    simp only [Initializer.type, gives_bind, gives_requireArray]
    exact ⟨(), array, (gives_fit array).mpr ⟨_, takes, rfl⟩⟩
  | elements elements takes =>
    have array := ne_scalar_of_takes takes
    have checked := (gives_checkElements formed).mpr elements
    simp only [Initializer.type, gives_bind, gives_requireArray, gives_requireMark]
    exact ⟨(), array, (), checked, (), ⟨_, rfl⟩, (gives_fit array).mpr ⟨_, takes, rfl⟩⟩
  | array typed accepts sized takes =>
    have array := accepts_array accepts sized
    simp only [Initializer.type, gives_bind, Operand.exists, Expr.gives_type table _ formed]
    refine ⟨_, _, typed, ?_⟩
    simpa [accepts, sized] using (gives_fit array).mpr ⟨_, takes, rfl⟩
  | @value _ source _ typed accepts unsized =>
    simp only [Initializer.type, gives_bind, Operand.exists, Expr.gives_type table _ formed]
    refine ⟨_, _, typed, ?_⟩
    obtain ⟨base, extent⟩ := source
    cases extent with
    | sized count => exact absurd rfl (unsized count)
    | scalar | unsized => simp [accepts]

end Initializer

variable {table : SymbolTable} {base : Base} {ty : Ty}

/-- The check of a declarator finds just the type that the judgement allows, but a member of a struct
has no initializer. -/
theorem Declarator.gives_type {region : Region} {declarator : Declarator} {name : Name}
    (formed : declarator.Formed) :
    (declarator.type region table name base).Gives ty ↔ declarator.HasType table base ty ∧
      ((∃ index struct, region = .members index struct) → declarator.initializer = none) := by
  obtain ⟨slot, array, initializer⟩ := declarator
  obtain ⟨formedArray, formedInitializer⟩ := formed
  simp only [Declarator.type, gives_bind, ArrayPart.gives_extent formedArray]
  cases initializer with
  | none =>
    simp only [gives_pure, implies_true, and_true]
    constructor
    · rintro ⟨extent, denotes, rfl⟩
      exact .plain denotes
    · intro typed
      cases typed with
      | plain denotes => exact ⟨_, denotes, rfl⟩
  | some initialized =>
    obtain ⟨op, initializer⟩ := initialized
    have formed := formedInitializer _ rfl
    cases region with
    | members index struct => simp
    | topLevel | body =>
      simp only [Initializer.gives_type formed, reduceCtorEq, exists_false, false_imp_iff, and_true]
      constructor
      · rintro ⟨extent, denotes, sizes⟩
        exact .initialized denotes sizes
      · intro typed
        cases typed with
        | initialized denotes sizes => exact ⟨_, denotes, sizes⟩

/-- Outside of structs a variable is declared if its name is free and its declarator has a type. -/
theorem Declarator.exists_declare (region : Region) {declarator : Declarator} {name : Name}
    (outside : ∀ index struct, region ≠ .members index struct) (formed : declarator.Formed)
    (found : declarator.name = .found name) (typed : declarator.HasType table base ty)
    (fresh : SymbolTable.Fresh table.symbols (region.variableSymbol name ty)) :
    ∃ table', (declarator.declare region base table).Gives table' ∧
      table'.symbols = table.symbols ++ [region.variableSymbol name ty] := by
  have given : (declarator.type region table name base).Gives ty := by
    refine (Declarator.gives_type formed).mpr ⟨typed, ?_⟩
    rintro ⟨index, struct, same⟩
    exact absurd same (outside index struct)
  cases region with
  | topLevel | body =>
    exact ⟨_, gives_declare.mpr
      ⟨name, ty, found, given, SymbolTable.gives_declare.mpr ⟨fresh, rfl⟩⟩, rfl⟩
  | members index struct => exact absurd rfl (outside index struct)

/-! ### Proper extents -/

/-- An array has at least one element and not more than can be declared, or any number of them. -/
def Extent.IsProper : Extent → Prop
  | .sized size => 1 ≤ size ∧ size ≤ maxExtent
  | .scalar | .unsized => True

/-- The extents of all symbols are proper, and so are those of their arguments and members. -/
def SymbolTable.IsProper (table : SymbolTable) : Prop :=
  ∀ symbol ∈ table.symbols, ∀ ty ∈ symbol.types, ty.extent.IsProper

/-- The number of elements in braces. -/
def Initializer.count : Initializer → Nat
  | .value _ | .noElements _ _ => 0
  | .elements _ args _ => args.length

/-- There are not more elements in braces than can be declared. -/
def Declarator.IsShort (declarator : Declarator) : Prop :=
  ∀ initialized ∈ declarator.initializer, initialized.2.count ≤ maxExtent

theorem Extent.isProper_of_scalar {extent : Extent} (scalar : extent = .scalar) :
    extent.IsProper := by
  subst scalar
  trivial

theorem Ty.isProper_of_not_isArray {ty : Ty} (scalar : ty.isArray = false) : ty.extent.IsProper := by
  refine Extent.isProper_of_scalar ?_
  simpa [Ty.isArray] using scalar

theorem ArrayPart.Denotes.isProper {array : ArrayPart} {extent : Extent}
    (denotes : array.Denotes extent) : extent.IsProper := by
  cases denotes with
  | absent | unsized => trivial
  | @sized opening size closing value evaluates positive small =>
    exact ⟨by omega, by omega⟩

namespace SymbolTable.IsProper

variable (proper : table.IsProper) {symbol : Symbol}

include proper

theorem own (among : symbol ∈ table.symbols) : symbol.ty.extent.IsProper :=
  proper symbol among symbol.ty List.mem_cons_self

theorem member {part : Symbol} (among : symbol ∈ table.symbols) (inside : part ∈ symbol.members) :
    part.ty.extent.IsProper :=
  proper symbol among part.ty (List.mem_cons_of_mem _
    (List.mem_map_of_mem (List.mem_append_right _ inside)))

end SymbolTable.IsProper

theorem Ty.promote?_isArray {left right : Ty} (promoted : left.promote? right = some ty) :
    ty.isArray = false := by
  unfold Ty.promote? at promoted
  split at promoted
  · cases promoted
  · rename_i scalars
    rw [Bool.or_eq_true, not_or, Bool.not_eq_true, Bool.not_eq_true] at scalars
    split at promoted
    · obtain rfl := Option.some.inj promoted
      split
      · exact scalars.1
      · exact scalars.2
    · cases promoted

/-- Where all arrays have a proper size, so has every value: it is computed and no array, or its type
is that of a symbol or written in the program, or it is a text that is not too long. -/
theorem Expr.HasType.isProper (proper : table.IsProper) {expr : Expr} {ty : Ty} {assignable : Bool}
    (typed : expr.HasType table ty assignable) : ty.extent.IsProper := by
  cases expr with
  | literal form lexeme =>
    cases typed with
    | integer | real | character | emptyText => trivial
    | text decoded positive small => exact ⟨positive, small⟩
  | reference name =>
    cases typed with
    | reference named isVar => exact proper.own named.mem
  | callEmpty callee opening closing =>
    cases typed with
    | callEmpty named callable noArgs => exact proper.own named.mem
  | call callee opening args closing =>
    cases typed with
    | call named callable fit => exact proper.own named.mem
  | paren opening inner closing =>
    cases typed with
    | paren inside => exact Expr.HasType.isProper proper inside
  | element array opening index closing =>
    cases typed with
    | element => trivial
  | member record dot slot =>
    cases typed with
    | member recordTyped declared found =>
      have among := List.mem_of_getElem? (Option.filter_eq_some_iff.mp declared).1
      exact proper.member among (List.mem_of_find?_eq_some found)
  | unary op operand =>
    cases typed with
    | negative operandTyped arithmetic =>
      rw [Ty.isArithmetic, Bool.and_eq_true, Bool.not_eq_true'] at arithmetic
      exact Ty.isProper_of_not_isArray arithmetic.1
    | negation => trivial
  | cast opening target closing operand =>
    cases typed with
    | cast denotes => exact denotes.2.isProper
  | binary op left right =>
    cases typed with
    | logical | comparison => trivial
    | arithmetic mem leftTyped rightTyped promoted =>
      exact Ty.isProper_of_not_isArray (Ty.promote?_isArray promoted)
  | assign target op value =>
    cases typed with
    | assign targetTyped valueTyped scalar => exact Ty.isProper_of_not_isArray scalar
  | missing instead => cases typed

theorem Extent.Takes.isProper {declared extent : Extent} {count : Nat} (proper : declared.IsProper)
    (few : count ≤ maxExtent) (takes : declared.Takes count extent) : extent.IsProper := by
  cases takes with
  | sized => exact proper
  | unsized some => exact ⟨some, few⟩
  | empty => trivial

theorem Initializer.Sizes.isProper {initializer : Initializer} {ty' : Ty} (proper : table.IsProper)
    (declared : ty.extent.IsProper) (few : initializer.count ≤ maxExtent)
    (sizes : initializer.Sizes table ty ty') : ty'.extent.IsProper := by
  cases sizes with
  | noElements takes => exact takes.isProper declared (Nat.zero_le _)
  | elements elements takes => exact takes.isProper declared few
  | array typed accepts sized takes =>
    have source := typed.isProper proper
    rw [sized] at source
    exact takes.isProper declared source.2
  | value => exact declared

/-- The variable that is declared has a proper size as well. -/
theorem Declarator.HasType.isProper {declarator : Declarator} (proper : table.IsProper)
    (short : declarator.IsShort) (typed : declarator.HasType table base ty) :
    ty.extent.IsProper := by
  cases typed with
  | plain denotes => exact denotes.isProper
  | initialized denotes sizes => exact sizes.isProper proper denotes.isProper (short _ rfl)

end PlainC
