import PlainC.Proofs.Checking.Refusals
import PlainC.Proofs.Structs.Known
import PlainC.Proofs.Table.Lookup

set_option autoImplicit false

/-!
The structs in the types of expressions. If a table has the declarations of all structs in its
symbols, then it has those of all structs in the types of expressions, and in all messages about
them a struct has its name.
-/

namespace PlainC

open Checked

variable {table : SymbolTable}

/-! ### What stands in every check -/

section

variable {α : Type}

/-- A rule whose message names no types. -/
theorem ends_untyped {violation : Violation} {place : Place} {Q : α → Prop}
    (none : violation.types = []) : Ends (Fault.Shows table) Q (violate violation place) :=
  ends_violate.mpr (Fault.shows_of_types_eq_nil none)

/-- A rule whose message names some types. -/
theorem ends_typed {violation : Violation} {place : Place} {Q : α → Prop} (types : List Ty)
    (same : violation.types = types.map table.typeName)
    (known : ∀ ty ∈ types, table.Knows ty.base) :
    Ends (Fault.Shows table) Q (violate violation place) :=
  ends_violate.mpr (Fault.shows_typeName types same known)

theorem ends_unexpected {wanted : Wanted} {instead : Lexeme} {Q : α → Prop} :
    Ends (Fault.Shows table) Q (unexpected wanted instead) :=
  ⟨refuses_unexpected.mpr (Fault.shows_of_types_eq_nil rfl), nofun⟩

theorem ends_require (wanted : Wanted) (slot : Slot α) :
    Ends (Fault.Shows table) (fun a => slot = .found a) (require wanted slot) := by
  refine ⟨refuses_require fun instead _ => Fault.shows_of_types_eq_nil rfl, fun a given => ?_⟩
  exact gives_require.mp given

theorem ends_requireMark (mark : Delimiter) (slot : Slot Place) :
    Ends (Fault.Shows table) (fun _ => True) (requireMark mark slot) :=
  (ends_require (.mark mark) slot).bind fun _ _ => ends_pure.mpr trivial

theorem ends_ofLiteral (place : Place) (decoded : Except LiteralError α) :
    Ends (Fault.Shows table) (fun _ => True) (ofLiteral place decoded) :=
  ⟨refuses_ofLiteral fun _ _ => Fault.shows_of_types_eq_nil rfl, fun _ _ => trivial⟩

theorem ends_write (record : LogRecord) :
    Ends (Fault.Shows table) (fun _ => True) (Logged.write record : Checked Unit) :=
  ⟨refuses_write record, fun _ _ => trivial⟩

end

/-! ### Types -/

theorem Size.ends_atOperator (place : Place) (value : Except Violation Int)
    (none : ∀ violation, value = .error violation → violation.types = []) :
    Ends (Fault.Shows table) (fun _ => True) (atOperator place value) := by
  cases value with
  | ok value => exact ends_pure.mpr trivial
  | error violation => exact ends_untyped (none violation rfl)

/-- What can go wrong with an operator of a size has nothing to do with types. -/
theorem Size.types_of_apply {op : Operator} {left right : Int} {violation : Violation}
    (failed : apply op left right = .error violation) : violation.types = [] := by
  unfold apply at failed
  simp only at failed
  repeat' split at failed
  all_goals
    cases failed
    try rfl

theorem Size.types_of_negateIf {sign : Operator} {value : Int} {violation : Violation}
    (failed : negateIf sign value = .error violation) : violation.types = [] := by
  unfold negateIf at failed
  split at failed
  · exact types_of_apply failed
  · cases failed

theorem Size.ends_value (size : Size) : Ends (Fault.Shows table) (fun _ => True) size.value := by
  induction size with
  | literal text => exact ends_ofLiteral _ _
  | signed sign operand ih =>
    exact ih.bind fun value _ => ends_atOperator _ _ fun _ => types_of_negateIf
  | binary op left right ihLeft ihRight =>
    exact ihLeft.bind fun l _ => ihRight.bind fun r _ => ends_atOperator _ _ fun _ => types_of_apply
  | paren opening inner closing ih =>
    exact ih.bind fun value _ => (ends_requireMark _ closing).bind fun _ _ => ends_pure.mpr trivial
  | missing instead => exact ends_untyped rfl

theorem BaseName.ends_resolve (base : BaseName) :
    Ends (Fault.Shows table) table.Knows (base.resolve table) := by
  cases base with
  | int | double | char => exact ends_pure.mpr (SymbolTable.knows_of_ne nofun)
  | struct word slot =>
    refine (ends_require .structName slot).bind fun name _ => ?_
    split
    · rename_i index found
      obtain ⟨struct, latest⟩ := SymbolTable.findStruct?_iff.mp found
      have declared : table.structAt? index = some struct := by
        obtain ⟨-, -, -, -, ⟨-, isStruct⟩, -⟩ := id latest
        exact SymbolTable.structAt?_iff.mpr ⟨latest.get?_eq, isStruct⟩
      exact ends_pure.mpr (SymbolTable.knows_of_structAt? declared)
    · exact ends_untyped rfl

theorem ArrayPart.ends_extent (array : ArrayPart) :
    Ends (Fault.Shows table) (fun _ => True) array.extent := by
  cases array with
  | absent | unsized => exact ends_pure.mpr trivial
  | sized opening size closing =>
    refine size.ends_value.bind fun value _ => Ends.bind (Q := fun _ => True) ?_ fun _ _ => ?_
    · cases closing with
      | found place => exact ends_pure.mpr trivial
      | missing instead =>
        simp only [requireClosing]
        split
        · exact ends_untyped rfl
        · exact ends_unexpected
    · split
      · exact ends_untyped rfl
      · split
        · exact ends_untyped rfl
        · exact ends_pure.mpr trivial

theorem TypeName.ends_resolve (name : TypeName) :
    Ends (Fault.Shows table) (fun ty => table.Knows ty.base) (name.resolve table) :=
  name.base.ends_resolve.bind fun _ known =>
    name.array.ends_extent.bind fun _ _ => ends_pure.mpr known

/-! ### Expressions -/

namespace Expr

theorem ends_invalidOperand {op : At Operator} {ty : Ty} {Q : Operand → Prop}
    (known : table.Knows ty.base) : Ends (Fault.Shows table) Q (invalidOperand table op ty) :=
  ends_typed [ty] rfl (by simpa using known)

theorem knows_int : table.Knows Ty.int.base := SymbolTable.knows_of_ne nofun

theorem knows_promote {left right ty : Ty} (leftKnown : table.Knows left.base)
    (rightKnown : table.Knows right.base) (wider : left.promote? right = some ty) :
    table.Knows ty.base := by
  unfold Ty.promote? at wider
  split at wider
  · cases wider
  · split at wider
    · obtain rfl := Option.some.inj wider
      split
      · exact leftKnown
      · exact rightKnown
    · cases wider

variable {left right : Ty}

theorem ends_typeOfTest (test : Ty → Bool) (op : At Operator) (leftKnown : table.Knows left.base)
    (rightKnown : table.Knows right.base) :
    Ends (Fault.Shows table) (fun operand => table.Knows operand.ty.base)
      (typeOfTest table test op left right) := by
  unfold typeOfTest
  split
  · exact ends_invalidOperand leftKnown
  · split
    · exact ends_invalidOperand rightKnown
    · exact ends_pure.mpr knows_int

theorem ends_typeOfArithmetic (op : At Operator) (leftKnown : table.Knows left.base)
    (rightKnown : table.Knows right.base) :
    Ends (Fault.Shows table) (fun operand => table.Knows operand.ty.base)
      (typeOfArithmetic table op left right) := by
  unfold typeOfArithmetic
  split
  · apply ends_invalidOperand
    split
    · exact rightKnown
    · exact leftKnown
  · rename_i ty wider
    split
    · exact ends_untyped rfl
    · exact ends_pure.mpr (knows_promote leftKnown rightKnown wider)

theorem ends_typeOfBinary (op : At Operator) (leftKnown : table.Knows left.base)
    (rightKnown : table.Knows right.base) :
    Ends (Fault.Shows table) (fun operand => table.Knows operand.ty.base)
      (typeOfBinary table op left right) := by
  obtain ⟨op, place⟩ := op
  cases op with
  | conj | disj => exact ends_typeOfTest Ty.isTestable _ leftKnown rightKnown
  | equal | unequal | less | lessEqual | greater | greaterEqual =>
    exact ends_typeOfTest Ty.isComparable _ leftKnown rightKnown
  | assign | bang | dot | plus | minus | star | slash | percent =>
    exact ends_typeOfArithmetic _ leftKnown rightKnown

theorem ends_typeOfUnary {ty : Ty} (op : At Operator) (known : table.Knows ty.base) :
    Ends (Fault.Shows table) (fun operand => table.Knows operand.ty.base)
      (typeOfUnary table op ty) := by
  unfold typeOfUnary
  split
  · split
    · exact ends_pure.mpr knows_int
    · exact ends_invalidOperand known
  · split
    · exact ends_pure.mpr known
    · exact ends_invalidOperand known

theorem ends_typeOfAssign {target : Operand} {value : Ty} (start op : Place)
    (targetKnown : table.Knows target.ty.base) (valueKnown : table.Knows value.base) :
    Ends (Fault.Shows table) (fun operand => table.Knows operand.ty.base)
      (typeOfAssign table start op target value) := by
  unfold typeOfAssign
  split
  · exact ends_untyped rfl
  · split
    · exact ends_typed [target.ty] rfl (by simpa using targetKnown)
    · split
      · exact ends_typed [value, target.ty] rfl (by simpa using ⟨valueKnown, targetKnown⟩)
      · exact ends_pure.mpr targetKnown

theorem ends_typeOfCast {target value : Ty} (start : Place) (targetKnown : table.Knows target.base)
    (valueKnown : table.Knows value.base) :
    Ends (Fault.Shows table) (fun operand => table.Knows operand.ty.base)
      (typeOfCast table start target value) := by
  unfold typeOfCast
  split
  · exact ends_pure.mpr targetKnown
  · exact ends_typed [value, target] rfl (by simpa using ⟨valueKnown, targetKnown⟩)

theorem ends_requireArray {ty : Ty} (opening : Place) (known : table.Knows ty.base) :
    Ends (Fault.Shows table) (fun _ => True) (requireArray table opening ty) := by
  unfold requireArray
  split
  · exact ends_pure.mpr trivial
  · exact ends_typed [ty] rfl (by simpa using known)

theorem ends_requireIndex {ty : Ty} (start : Place) (known : table.Knows ty.base) :
    Ends (Fault.Shows table) (fun _ => True) (requireIndex table start ty) := by
  unfold requireIndex
  split
  · exact ends_pure.mpr trivial
  · exact ends_typed [ty] rfl (by simpa using known)

variable (grounded : table.Grounded)

include grounded

theorem ends_typeOfMember {record : Operand} (dot : Place) (member : Name)
    (known : table.Knows record.ty.base) :
    Ends (Fault.Shows table) (fun operand => table.Knows operand.ty.base)
      (typeOfMember table dot record member) := by
  unfold typeOfMember
  split
  · rename_i index _ _
    split
    · rename_i symbol found
      obtain ⟨struct, declared, inside⟩ := Option.bind_eq_some_iff.mp found
      have mem := List.mem_of_getElem? (SymbolTable.structAt?_iff.mp declared).1
      exact ends_pure.mpr (SymbolTable.knows_member grounded mem (List.mem_of_find?_eq_some inside))
    · exact ends_typed [record.ty] rfl (by simpa using known)
  · exact ends_typed [record.ty] rfl (by simpa using known)

omit grounded in
theorem ends_lookUp (name : Name) :
    Ends (Fault.Shows table) (fun symbol => symbol ∈ table.symbols) (lookUp table name) := by
  unfold lookUp
  split
  · rename_i symbol found
    obtain ⟨_, _, _, same, -⟩ := SymbolTable.find?_iff.mp found
    exact ends_pure.mpr (same ▸ List.mem_append_right _ List.mem_cons_self)
  · exact ends_untyped rfl

theorem ends_typeOfReference (name : Name) :
    Ends (Fault.Shows table) (fun operand => table.Knows operand.ty.base)
      (typeOfReference table name) := by
  refine (ends_lookUp name).bind fun symbol mem => ?_
  split
  · exact ends_pure.mpr (SymbolTable.knows_symbol grounded mem)
  all_goals exact ends_untyped rfl

omit grounded in
theorem ends_requireFunction (name : Name) :
    Ends (Fault.Shows table) (fun symbol => symbol ∈ table.symbols)
      (requireFunction table name) := by
  refine (ends_lookUp name).bind fun symbol mem => ?_
  split
  · exact ends_pure.mpr mem
  · exact ends_untyped rfl

theorem ends_requireArgument {symbol : Symbol} {ty : Ty} (callee : Name) (position : Nat)
    (start : Place) (mem : symbol ∈ table.symbols) (known : table.Knows ty.base) :
    Ends (Fault.Shows table) (fun _ => True)
      (requireArgument table callee symbol.args position start ty) := by
  unfold requireArgument
  split
  · exact ends_untyped rfl
  · rename_i param inside
    have paramKnown := SymbolTable.knows_arg grounded mem (List.mem_of_getElem? inside)
    split
    · exact ends_pure.mpr trivial
    · exact ends_typed [ty, param.ty] rfl (by simpa using ⟨known, paramKnown⟩)

theorem ends_typeOfCall {symbol : Symbol} (callee : Name) (given : Nat)
    (mem : symbol ∈ table.symbols) :
    Ends (Fault.Shows table) (fun operand => table.Knows operand.ty.base)
      (typeOfCall callee symbol given) := by
  unfold typeOfCall
  split
  · exact ends_untyped rfl
  · exact ends_pure.mpr (SymbolTable.knows_symbol grounded mem)

omit grounded in
theorem ends_typeOfLiteral (form : LiteralForm) (text : Name) :
    Ends (Fault.Shows table) (fun operand => table.Knows operand.ty.base)
      (typeOfLiteral form text) := by
  cases form with
  | integer | real | character =>
    exact (ends_ofLiteral text.place _).bind fun _ _ =>
      ends_pure.mpr (SymbolTable.knows_of_ne nofun)
  | string =>
    refine (ends_ofLiteral text.place _).bind fun contents _ => ?_
    unfold typeOfText
    split
    · exact ends_untyped rfl
    · exact ends_pure.mpr (SymbolTable.knows_of_ne nofun)

end Expr

mutual

/-- The type of an expression is known, and so are the types in messages about it. -/
theorem Expr.ends_type (grounded : table.Grounded) : ∀ expr : Expr,
    Ends (Fault.Shows table) (fun operand => table.Knows operand.ty.base) (expr.type table)
  | .literal form text => by
    simp only [Expr.type]
    exact Expr.ends_typeOfLiteral form text
  | .reference name => by
    simp only [Expr.type]
    exact Expr.ends_typeOfReference grounded name
  | .callEmpty callee opening closing => by
    simp only [Expr.type]
    exact (Expr.ends_requireFunction callee).bind fun symbol mem =>
      Expr.ends_typeOfCall grounded callee 0 mem
  | .call callee opening args closing => by
    simp only [Expr.type]
    refine (Expr.ends_requireFunction callee).bind fun symbol mem => ?_
    refine (Args.ends_check grounded callee mem 0 args).bind fun _ _ => ?_
    exact (ends_requireMark .rightParen closing).bind fun _ _ =>
      Expr.ends_typeOfCall grounded callee _ mem
  | .paren opening inner closing => by
    simp only [Expr.type]
    refine (ends_write _).bind fun _ _ => (Expr.ends_type grounded inner).bind fun operand known => ?_
    exact (ends_requireMark .rightParen closing).bind fun _ _ => ends_pure.mpr known
  | .element array opening index closing => by
    simp only [Expr.type]
    refine (Expr.ends_type grounded array).bind fun base known => ?_
    refine (Expr.ends_requireArray opening known).bind fun _ _ => ?_
    refine (Expr.ends_type grounded index).bind fun operand indexKnown => ?_
    refine (Expr.ends_requireIndex index.start indexKnown).bind fun _ _ => ?_
    exact (ends_requireMark .rightBracket closing).bind fun _ _ => ends_pure.mpr known
  | .member record dot slot => by
    simp only [Expr.type]
    refine (Expr.ends_type grounded record).bind fun operand known => ?_
    exact (ends_require .memberName slot).bind fun name _ =>
      Expr.ends_typeOfMember grounded dot name known
  | .unary op operand => by
    have ends := Expr.ends_type grounded operand
    simp only [Expr.type]
    split
    · exact ends.withoutFirst.bind fun value known => Expr.ends_typeOfUnary op known
    · exact ends.bind fun value known => Expr.ends_typeOfUnary op known
  | .cast opening target closing operand => by
    simp only [Expr.type]
    refine target.ends_resolve.bind fun ty known => ?_
    refine (ends_requireMark .rightParen closing).bind fun _ _ => ?_
    exact (Expr.ends_type grounded operand).bind fun value valueKnown =>
      Expr.ends_typeOfCast operand.start known valueKnown
  | .binary op left right => by
    simp only [Expr.type]
    refine (Expr.ends_type grounded left).bind fun l leftKnown => ?_
    exact (Expr.ends_type grounded right).bind fun r rightKnown =>
      Expr.ends_typeOfBinary op leftKnown rightKnown
  | .assign target op value => by
    simp only [Expr.type]
    refine (Expr.ends_type grounded target).bind fun t targetKnown => ?_
    exact (Expr.ends_type grounded value).bind fun v valueKnown =>
      Expr.ends_typeOfAssign target.start op targetKnown valueKnown
  | .missing instead => by
    simp only [Expr.type]
    exact ends_unexpected

theorem Args.ends_check (grounded : table.Grounded) (callee : Name) {symbol : Symbol}
    (mem : symbol ∈ table.symbols) : ∀ (position : Nat) (args : Args),
      Ends (Fault.Shows table) (fun _ => True) (args.check table callee symbol.args position)
  | position, .last arg => by
    simp only [Args.check]
    exact (Expr.ends_type grounded arg).bind fun value known =>
      Expr.ends_requireArgument grounded callee position arg.start mem known
  | position, .more arg comma rest => by
    simp only [Args.check]
    refine (Expr.ends_type grounded arg).bind fun value known => ?_
    refine (Expr.ends_requireArgument grounded callee position arg.start mem known).bind
      fun _ _ => ?_
    exact Args.ends_check grounded callee mem (position + 1) rest

end

end PlainC
