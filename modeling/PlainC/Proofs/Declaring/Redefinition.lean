import PlainC.Decl.Check
import PlainC.Proofs.Checking.Refusals

set_option autoImplicit false

/-!
Where names are found to be taken. Types, expressions and statements can be wrong in many ways, but
none of their checks complains of a name that is declared twice; this is left to the declarations.
And none but that of a `break` complains that it is outside of loops. On the way they write nothing
but traces of where the reading went back.
-/

namespace PlainC

open Checked

/-- The message names the line of the earlier declaration, if there is one. -/
theorem Violation.message_redefinition (name : String) {line : Nat} (known : 0 < line) :
    (redefinition name line).message = "symbol redefinition: " ++ name ++
      (" (previously declared on line " ++ toString line ++ ")") := by
  change _ ++ (if line > 0 then _ else _) = _
  rw [if_pos known]

/-- Neither a name is declared twice nor does a `break` stand outside of loops. -/
def Violation.isPlain : Violation → Bool
  | redefinition _ _ | breakOutsideLoop => false
  | _ => true

namespace Fault

/-- The fault is that a name is declared twice. -/
def IsRedefinition (fault : Fault) : Prop :=
  ∃ name line, fault.cause = .violation (.redefinition name line)

/-- The fault is another one than that a name is declared twice. -/
def IsOther (fault : Fault) : Prop := ¬fault.IsRedefinition

theorem isOther_violation {violation : Violation} {place : Place}
    (other : ∀ name line, violation ≠ .redefinition name line) :
    IsOther ⟨.violation violation, place⟩ := by
  rintro ⟨name, line, same⟩
  exact other name line (Cause.violation.inj same)

/-- The fault is neither one of a name that is declared twice nor one of a `break`. -/
def IsPlain (fault : Fault) : Prop :=
  ∀ violation, fault.cause = .violation violation → violation.isPlain = true

theorem IsPlain.isOther {fault : Fault} (plain : fault.IsPlain) : fault.IsOther := by
  rintro ⟨name, line, same⟩
  cases plain _ same

theorem isPlain_violation {violation : Violation} {place : Place}
    (plain : violation.isPlain = true) : IsPlain ⟨.violation violation, place⟩ := by
  rintro _ ⟨⟩
  exact plain

theorem isPlain_unexpected {wanted : Wanted} {found : Kind} {place : Place} :
    IsPlain ⟨.unexpected wanted found, place⟩ := nofun

theorem isPlain_literal {error : LiteralError} {place : Place} :
    IsPlain ⟨.literal error, place⟩ := nofun

end Fault

open Fault

/-! ### Plain checks -/

namespace Checked

/-- The check is made of steps that write traces at most, and refuses for plain reasons only. -/
inductive Plain : {α : Type} → Checked α → Prop
  | given {α : Type} (a : α) : Plain (pure a : Checked α)
  | refused {α : Type} {cause : Cause} {place : Place} :
      IsPlain ⟨cause, place⟩ → Plain (refuse cause place : Checked α)
  | traced (count : Nat) (place : Place) : Plain (backtracked count place)
  | bind {α β : Type} {x : Checked α} {next : α → Checked β} :
      Plain x → (∀ a, Plain (next a)) → Plain (x >>= next)
  | withoutFirst {α : Type} {x : Checked α} : Plain x → Plain x.withoutFirst

theorem Plain.refuses {α : Type} {x : Checked α} (plain : Plain x) : Refuses IsPlain x := by
  induction plain with
  | given a => exact refuses_pure a
  | refused plain => exact refuses_refuse.mpr plain
  | traced count place => exact refuses_write _
  | bind _ _ first second => exact first.bind fun a _ => second a
  | withoutFirst _ ih => exact ih.withoutFirst

end Checked

variable {α : Type}

theorem other_of_plain {x : Checked α} (plain : Plain x) : Refuses IsOther x :=
  plain.refuses.mono fun _ => IsPlain.isOther

theorem plain_violate {violation : Violation} {place : Place}
    (plain : violation.isPlain = true) : Plain (violate violation place : Checked α) :=
  .refused (isPlain_violation plain)

theorem plain_unexpected (wanted : Wanted) (instead : Lexeme) :
    Plain (unexpected wanted instead : Checked α) :=
  .refused isPlain_unexpected

theorem plain_require (wanted : Wanted) (slot : Slot α) : Plain (require wanted slot) := by
  cases slot with
  | found a => exact .given a
  | missing instead => exact plain_unexpected wanted instead

theorem plain_requireMark (mark : Delimiter) (slot : Slot Place) : Plain (requireMark mark slot) :=
  (plain_require _ slot).bind fun _ => .given ()

theorem plain_ofLiteral (place : Place) (decoded : Except LiteralError α) :
    Plain (ofLiteral place decoded) := by
  cases decoded with
  | ok value => exact .given value
  | error error => exact .refused isPlain_literal

/-- A rule that is checked in front of the rest. -/
theorem plain_unless {broken : Prop} [Decidable broken] {violation : Violation} {place : Place}
    {next : Unit → Checked α} (plain : violation.isPlain = true) (rest : Plain (next ())) :
    Plain (if broken then violate violation place >>= next else next ()) := by
  split
  · exact (plain_violate plain).bind fun _ => rest
  · exact rest

/-! ### Types -/

namespace Size

theorem isPlain_of_apply {op : Operator} {left right : Int} {violation : Violation}
    (failed : apply op left right = .error violation) : violation.isPlain = true := by
  unfold apply at failed
  simp only at failed
  repeat' split at failed
  all_goals
    cases failed
    try rfl

theorem isPlain_of_negateIf {sign : Operator} {value : Int} {violation : Violation}
    (failed : negateIf sign value = .error violation) : violation.isPlain = true := by
  unfold negateIf at failed
  split at failed
  · exact isPlain_of_apply failed
  · cases failed

theorem plain_atOperator (place : Place) {value : Except Violation Int}
    (plain : ∀ violation, value = .error violation → violation.isPlain = true) :
    Plain (atOperator place value) := by
  cases value with
  | ok value => exact .given value
  | error violation => exact plain_violate (plain violation rfl)

theorem plain_value (size : Size) : Plain size.value := by
  induction size with
  | literal text => exact plain_ofLiteral _ _
  | signed sign operand ih =>
    exact ih.bind fun _ => plain_atOperator _ fun _ => isPlain_of_negateIf
  | binary op left right ihLeft ihRight =>
    exact ihLeft.bind fun _ => ihRight.bind fun _ =>
      plain_atOperator _ fun _ => isPlain_of_apply
  | paren opening inner closing ih =>
    exact ih.bind fun value => (plain_requireMark _ closing).bind fun _ => .given value
  | missing instead => exact plain_violate rfl

end Size

variable (table : SymbolTable)

theorem BaseName.plain_resolve (base : BaseName) : Plain (base.resolve table) := by
  cases base with
  | int | double | char => exact .given _
  | struct word slot =>
    refine (plain_require _ slot).bind fun name => ?_
    split
    · exact .given _
    · exact plain_violate rfl

theorem ResultType.plain_resolve (result : ResultType) :
    Plain (result.resolve table) := by
  cases result with
  | void word => exact .given _
  | value base | array base star =>
    exact (base.plain_resolve table).bind fun _ => .given _

theorem ArrayPart.plain_extent (array : ArrayPart) : Plain array.extent := by
  cases array with
  | absent | unsized => exact .given _
  | sized opening size closing =>
    refine size.plain_value.bind fun value => Plain.bind ?_ fun _ => ?_
    · unfold requireClosing
      repeat' split
      · exact .given _
      · exact plain_violate rfl
      · exact plain_unexpected _ _
    · repeat' split
      · exact plain_violate rfl
      · exact plain_violate rfl
      · exact .given _

theorem TypeName.plain_resolve (name : TypeName) : Plain (name.resolve table) :=
  (name.base.plain_resolve table).bind fun _ =>
    name.array.plain_extent.bind fun _ => .given _

/-! ### Expressions -/

namespace Expr

theorem plain_typeOfBinary (op : At Operator) (left right : Ty) :
    Plain (typeOfBinary table op left right) := by
  unfold typeOfBinary typeOfTest typeOfArithmetic invalidOperand
  repeat' split
  all_goals first | exact plain_violate rfl | exact .given _

theorem plain_typeOfUnary (op : At Operator) (ty : Ty) :
    Plain (typeOfUnary table op ty) := by
  unfold typeOfUnary invalidOperand
  repeat' split
  all_goals first | exact plain_violate rfl | exact .given _

theorem plain_typeOfAssign (start op : Place) (target : Operand) (value : Ty) :
    Plain (typeOfAssign table start op target value) := by
  unfold typeOfAssign
  repeat' split
  all_goals first | exact plain_violate rfl | exact .given _

theorem plain_typeOfCast (start : Place) (target value : Ty) :
    Plain (typeOfCast table start target value) := by
  unfold typeOfCast
  split
  · exact .given _
  · exact plain_violate rfl

theorem plain_requireArray (opening : Place) (ty : Ty) :
    Plain (requireArray table opening ty) := by
  unfold requireArray
  split
  · exact .given _
  · exact plain_violate rfl

theorem plain_requireIndex (start : Place) (ty : Ty) :
    Plain (requireIndex table start ty) := by
  unfold requireIndex
  split
  · exact .given _
  · exact plain_violate rfl

theorem plain_typeOfMember (dot : Place) (record : Operand) (member : Name) :
    Plain (typeOfMember table dot record member) := by
  unfold typeOfMember
  repeat' split
  all_goals first | exact plain_violate rfl | exact .given _

theorem plain_lookUp (name : Name) : Plain (lookUp table name) := by
  unfold lookUp
  split
  · exact .given _
  · exact plain_violate rfl

theorem plain_typeOfReference (name : Name) : Plain (typeOfReference table name) := by
  refine (plain_lookUp table name).bind fun symbol => ?_
  split
  · exact .given _
  all_goals exact plain_violate rfl

theorem plain_requireFunction (name : Name) : Plain (requireFunction table name) := by
  refine (plain_lookUp table name).bind fun symbol => ?_
  split
  · exact .given _
  · exact plain_violate rfl

theorem plain_requireArgument (callee : Name) (params : List Symbol) (position : Nat)
    (start : Place) (ty : Ty) :
    Plain (requireArgument table callee params position start ty) := by
  unfold requireArgument
  repeat' split
  all_goals first | exact plain_violate rfl | exact .given _

theorem plain_typeOfCall (callee : Name) (symbol : Symbol) (given : Nat) :
    Plain (typeOfCall callee symbol given) := by
  unfold typeOfCall
  split
  · exact plain_violate rfl
  · exact .given _

theorem plain_typeOfLiteral (form : LiteralForm) (text : Name) :
    Plain (typeOfLiteral form text) := by
  cases form with
  | integer | real | character => exact (plain_ofLiteral _ _).bind fun _ => .given _
  | string =>
    refine (plain_ofLiteral _ _).bind fun contents => ?_
    unfold typeOfText
    split
    · exact plain_violate rfl
    · exact .given _

end Expr

mutual

theorem Expr.plain_type : ∀ expr : Expr, Plain (expr.type table)
  | .literal form text => by
    simp only [Expr.type]
    exact Expr.plain_typeOfLiteral form text
  | .reference name => by
    simp only [Expr.type]
    exact Expr.plain_typeOfReference table name
  | .callEmpty callee opening closing => by
    simp only [Expr.type]
    exact (Expr.plain_requireFunction table callee).bind fun _ => Expr.plain_typeOfCall _ _ _
  | .call callee opening args closing => by
    simp only [Expr.type]
    refine (Expr.plain_requireFunction table callee).bind fun symbol => ?_
    refine (Args.plain_check callee symbol.args 0 args).bind fun _ => ?_
    exact (plain_requireMark _ closing).bind fun _ => Expr.plain_typeOfCall _ _ _
  | .paren opening inner closing => by
    simp only [Expr.type]
    refine (Plain.traced 1 opening).bind fun _ => (Expr.plain_type inner).bind fun operand => ?_
    exact (plain_requireMark _ closing).bind fun _ => .given operand
  | .element array opening index closing => by
    simp only [Expr.type]
    refine (Expr.plain_type array).bind fun base => ?_
    refine (Expr.plain_requireArray table opening base.ty).bind fun _ => ?_
    refine (Expr.plain_type index).bind fun operand => ?_
    refine (Expr.plain_requireIndex table index.start operand.ty).bind fun _ => ?_
    exact (plain_requireMark _ closing).bind fun _ => .given _
  | .member record dot slot => by
    simp only [Expr.type]
    refine (Expr.plain_type record).bind fun operand => ?_
    exact (plain_require _ slot).bind fun name => Expr.plain_typeOfMember table dot operand name
  | .unary op operand => by
    have plain := Expr.plain_type operand
    simp only [Expr.type]
    split
    · exact plain.withoutFirst.bind fun value => Expr.plain_typeOfUnary table op value.ty
    · exact plain.bind fun value => Expr.plain_typeOfUnary table op value.ty
  | .cast opening target closing operand => by
    simp only [Expr.type]
    refine (target.plain_resolve table).bind fun ty => ?_
    refine (plain_requireMark _ closing).bind fun _ => ?_
    exact (Expr.plain_type operand).bind fun value => Expr.plain_typeOfCast table _ ty value.ty
  | .binary op left right => by
    simp only [Expr.type]
    refine (Expr.plain_type left).bind fun l => (Expr.plain_type right).bind fun r => ?_
    exact Expr.plain_typeOfBinary table op l.ty r.ty
  | .assign target op value => by
    simp only [Expr.type]
    refine (Expr.plain_type target).bind fun t => (Expr.plain_type value).bind fun v => ?_
    exact Expr.plain_typeOfAssign table target.start op t v.ty
  | .missing instead => by
    simp only [Expr.type]
    exact plain_unexpected _ instead

theorem Args.plain_check (callee : Name) (params : List Symbol) :
    ∀ (position : Nat) (args : Args), Plain (args.check table callee params position)
  | position, .last arg => by
    simp only [Args.check]
    exact (Expr.plain_type arg).bind fun _ => Expr.plain_requireArgument table callee params _ _ _
  | position, .more arg comma rest => by
    simp only [Args.check]
    refine (Expr.plain_type arg).bind fun _ => ?_
    refine (Expr.plain_requireArgument table callee params _ _ _).bind fun _ => ?_
    exact Args.plain_check callee params (position + 1) rest

end

/-! ### Notes -/

theorem refuses_of_gives {P : Fault → Prop} {x : Checked α} {a : α} (h : x.Gives a) :
    Refuses P x := fun _ failed => absurd (h.symm.trans failed) nofun

theorem BaseName.gives_noteStruct (base : BaseName) : base.noteStruct.Gives () := by
  unfold noteStruct backtracked
  split
  · exact gives_write
  · exact gives_pure.mpr rfl

theorem ResultType.gives_noteStruct (result : ResultType) : result.noteStruct.Gives () := by
  cases result with
  | void word => exact gives_pure.mpr rfl
  | value base | array base star => exact base.gives_noteStruct

theorem gives_noteFunction (tried : Nat) (start : Place) : (noteFunction tried start).Gives () := by
  unfold noteFunction backtracked
  split
  · exact gives_pure.mpr rfl
  · exact gives_write

/-! ### Initializers -/

namespace Initializer

theorem plain_fit (start : Place) (ty : Ty) (count : Nat) :
    Plain (fit start ty count) := by
  unfold fit
  repeat' split
  all_goals first | exact plain_violate rfl | exact .given _

theorem plain_checkElement (element : Ty) (expr : Expr) :
    Plain (checkElement table element expr) := by
  refine (expr.plain_type table).bind fun value => ?_
  split
  · exact plain_violate rfl
  · exact .given _

theorem plain_checkElements (element : Ty) (args : Args) :
    Plain (checkElements table element args) := by
  cases args with
  | last expr => exact plain_checkElement table element expr
  | more expr comma rest =>
    exact (plain_checkElement table element expr).bind fun _ => plain_checkElements element rest

theorem plain_requireArray (opening : Place) (ty : Ty) :
    Plain (requireArray table opening ty) := by
  unfold requireArray
  split
  · exact .given _
  · exact plain_violate rfl

theorem plain_type (ty : Ty) (init : Initializer) : Plain (init.type table ty) := by
  cases init with
  | noElements opening closing =>
    exact (plain_requireArray table opening ty).bind fun _ => plain_fit _ _ _
  | elements opening args closing =>
    refine (plain_requireArray table opening ty).bind fun _ => ?_
    refine (plain_checkElements table ty.element args).bind fun _ => ?_
    exact (plain_requireMark _ closing).bind fun _ => plain_fit _ _ _
  | value expr =>
    refine (expr.plain_type table).bind fun source => ?_
    refine plain_unless rfl ?_
    split
    · exact plain_fit _ _ _
    · exact .given _

end Initializer

theorem Declarator.plain_type (region : Region) (name : Name) (base : Base)
    (declarator : Declarator) : Plain (declarator.type region table name base) := by
  refine declarator.array.plain_extent.bind fun extent => ?_
  repeat' split
  · exact .given _
  · exact plain_violate rfl
  · exact Initializer.plain_type table _ _

/-! ### Statements -/

theorem Expr.plain_checkTested (expr : Expr) : Plain (expr.checkTested table) := by
  refine (expr.plain_type table).bind fun value => ?_
  refine plain_unless rfl ?_
  split
  · exact plain_violate rfl
  · exact .given _

theorem Expr.plain_checkUnused (expr : Expr) : Plain (expr.checkUnused table) :=
  (expr.plain_type table).bind fun _ => .given _

theorem Condition.plain_check (condition : Condition) :
    Plain (condition.check table) :=
  (plain_requireMark _ _).bind fun _ =>
    (condition.expr.plain_checkTested table).bind fun _ => plain_requireMark _ _

theorem plain_optional {check : Expr → Checked Unit} (plain : ∀ expr, Plain (check expr))
    (expr : Option Expr) : Plain (expr.forM check) := by
  cases expr with
  | none => exact .given ()
  | some expr => exact plain expr

theorem ForHeader.plain_check (header : ForHeader) : Plain (header.check table) := by
  refine (plain_requireMark _ _).bind fun _ => ?_
  refine (plain_optional (Expr.plain_checkUnused table) _).bind fun _ => ?_
  refine (plain_requireMark _ _).bind fun _ => ?_
  refine (plain_optional (Expr.plain_checkTested table) _).bind fun _ => ?_
  refine (plain_requireMark _ _).bind fun _ => ?_
  refine (plain_optional (Expr.plain_checkUnused table) _).bind fun _ => ?_
  exact plain_requireMark _ _

theorem FunctionScope.plain_checkReturn (scope : FunctionScope) (word : Place)
    (value : Option Expr) : Plain (scope.checkReturn table word value) := by
  cases value with
  | none =>
    simp only [checkReturn]
    split
    · exact .given _
    · exact plain_violate rfl
  | some expr =>
    refine (expr.plain_type table).bind fun given => ?_
    refine plain_unless rfl ?_
    split
    · exact plain_violate rfl
    · exact .given _

end PlainC
