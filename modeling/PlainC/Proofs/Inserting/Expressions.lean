import PlainC.Expr.Typing
import PlainC.Proofs.Inserting.Tables

set_option autoImplicit false

/-!
The types of expressions in a table with symbols put in: the same ones, but for the indices of
structs.
-/

namespace PlainC

open Checked

variable {ins : Insertion} {table table' : SymbolTable}

/-- The second type is the first one with the new index of its struct. -/
def Ty.Renumbered (ins : Insertion) (ty ty' : Ty) : Prop := ty' = ty.renumber ins

/-- The second value is the first one with the new index of its struct. -/
def Operand.Renumbered (ins : Insertion) (operand operand' : Operand) : Prop :=
  operand' = operand.renumber ins

/-! ### Type names -/

theorem BaseName.agree_resolve (h : table.Widened ins table') (base : BaseName)
    (spares : ins.SparesAll base.parts) :
    Agree (fun base base' => base' = base.renumber ins) (base.resolve table)
      (base.resolve table') := by
  cases base with
  | int | double | char => exact related_pure rfl
  | struct word slot =>
    cases slot with
    | missing instead => exact agree_unexpected .structName instead
    | found name =>
      simp only [BaseName.parts, Slot.parts, Insertion.sparesAll_append, Insertion.sparesAll_name]
        at spares
      simp only [BaseName.resolve, require, pure_bind, h.findStruct? spares.2]
      cases table.findStruct? name.value with
      | some index => exact related_pure rfl
      | none => exact agree_violate ..

theorem TypeName.agree_resolve (h : table.Widened ins table') (name : TypeName)
    (spares : ins.SparesAll name.parts) :
    Agree (Ty.Renumbered ins) (name.resolve table) (name.resolve table') := by
  rw [TypeName.parts, Insertion.sparesAll_append] at spares
  apply (name.base.agree_resolve h spares.1).bind
  rintro base _ rfl
  apply (agree_refl name.array.extent).behind
  intro extent
  exact related_pure rfl

/-! ### Operators -/

namespace Expr

variable {op : At Operator}

theorem agree_invalidOperand (ty ty' : Ty) :
    Agree (Operand.Renumbered ins) (invalidOperand table op ty) (invalidOperand table' op ty') :=
  agree_violate ..

theorem agree_typeOfTest {test : Ty → Bool} (same : ∀ ty, test (Ty.renumber ins ty) = test ty)
    (left right : Ty) :
    Agree (Operand.Renumbered ins) (typeOfTest table test op left right)
      (typeOfTest table' test op (left.renumber ins) (right.renumber ins)) := by
  unfold typeOfTest
  rw [same, same]
  apply related_ite
  · intro _
    exact agree_invalidOperand _ _
  intro _
  apply related_ite
  · intro _
    exact agree_invalidOperand _ _
  · intro _
    exact related_pure rfl

theorem agree_typeOfArithmetic (left right : Ty) :
    Agree (Operand.Renumbered ins) (typeOfArithmetic table op left right)
      (typeOfArithmetic table' op (left.renumber ins) (right.renumber ins)) := by
  unfold typeOfArithmetic
  rw [Ty.promote?_renumber]
  cases left.promote? right with
  | none => exact agree_invalidOperand _ _
  | some ty =>
    simp only [Option.map_some, Ty.renumber, Base.renumber_eq_double]
    exact agree_broken (related_pure rfl)

theorem agree_typeOfBinary (left right : Ty) :
    Agree (Operand.Renumbered ins) (typeOfBinary table op left right)
      (typeOfBinary table' op (left.renumber ins) (right.renumber ins)) := by
  obtain ⟨op, place⟩ := op
  cases op with
  | conj | disj => exact agree_typeOfTest Ty.isTestable_renumber left right
  | equal | unequal | less | lessEqual | greater | greaterEqual =>
    exact agree_typeOfTest Ty.isComparable_renumber left right
  | assign | bang | dot | plus | minus | star | slash | percent =>
    exact agree_typeOfArithmetic left right

theorem agree_typeOfUnary (ty : Ty) :
    Agree (Operand.Renumbered ins) (typeOfUnary table op ty)
      (typeOfUnary table' op (ty.renumber ins)) := by
  unfold typeOfUnary
  rw [Ty.isTestable_renumber, Ty.isArithmetic_renumber]
  apply related_ite
  · intro _
    exact related_ite (fun _ => related_pure rfl) fun _ => agree_invalidOperand _ _
  · intro _
    exact related_ite (fun _ => related_pure rfl) fun _ => agree_invalidOperand _ _

theorem agree_typeOfAssign (start op : Place) (target : Operand) (value : Ty) :
    Agree (Operand.Renumbered ins) (typeOfAssign table start op target value)
      (typeOfAssign table' start op (target.renumber ins) (value.renumber ins)) := by
  simp only [typeOfAssign, Operand.renumber, Ty.isArray_renumber, Ty.accepts_renumber]
  apply agree_broken
  apply agree_broken
  exact agree_broken (related_pure rfl)

theorem agree_typeOfCast (start : Place) (target value : Ty) :
    Agree (Operand.Renumbered ins) (typeOfCast table start target value)
      (typeOfCast table' start (target.renumber ins) (value.renumber ins)) := by
  simp only [typeOfCast, Ty.accepts_renumber]
  exact agree_kept rfl

theorem agree_requireArray (opening : Place) (ty : Ty) :
    Agree Eq (requireArray table opening ty) (requireArray table' opening (ty.renumber ins)) := by
  simp only [requireArray, Ty.isArray_renumber]
  exact agree_kept rfl

theorem agree_requireIndex (start : Place) (ty : Ty) :
    Agree Eq (requireIndex table start ty) (requireIndex table' start (ty.renumber ins)) := by
  simp only [requireIndex, Ty.renumber_eq_int]
  exact agree_kept rfl

theorem agree_typeOfMember (h : table.Widened ins table') (dot : Place) (record : Operand)
    (member : Name) :
    Agree (Operand.Renumbered ins) (typeOfMember table dot record member)
      (typeOfMember table' dot (record.renumber ins) member) := by
  simp only [typeOfMember, Operand.renumber, Ty.isArray_renumber, Ty.structIndex?_renumber]
  cases record.ty.isArray with
  | true => exact agree_violate ..
  | false =>
    cases record.ty.structIndex? with
    | none => exact agree_violate ..
    | some index =>
      simp only [Option.map_some]
      rcases rel_cases (h.structAt? index) with
          ⟨none, none'⟩ | ⟨struct, struct', found, found', same⟩
      · simp only [none, none', Option.bind_none]
        exact agree_violate ..
      · simp only [found, found', Option.bind_some, same.member?]
        cases struct.member? member.value with
        | none => exact agree_violate ..
        | some symbol => exact related_pure rfl

/-! ### Names -/

section

variable (h : table.Widened ins table') {name : Name} (spared : ins.Spares name.value)

include h spared

theorem agree_lookUp :
    Agree (Symbol.Renumbered ins) (lookUp table name) (lookUp table' name) := by
  unfold lookUp
  rcases rel_cases (h.find? spared) with ⟨none, none'⟩ | ⟨symbol, symbol', found, found', same⟩
  · simp only [none, none']
    exact agree_violate ..
  · simp only [found, found']
    exact related_pure same

theorem agree_typeOfReference :
    Agree (Operand.Renumbered ins) (typeOfReference table name) (typeOfReference table' name) := by
  apply (agree_lookUp h spared).bind
  intro symbol symbol' same
  rw [same.cls, same.ty]
  cases symbol.cls with
  | var => exact related_pure rfl
  | function | external | struct => exact agree_violate ..

theorem agree_requireFunction :
    Agree (Symbol.Renumbered ins) (requireFunction table name) (requireFunction table' name) := by
  apply (agree_lookUp h spared).bind
  intro symbol symbol' same
  rw [Symbol.isCallable, Symbol.isCallable, same.cls]
  exact agree_kept same

end

theorem agree_requireArgument (callee : Name) {params params' : List Symbol}
    (same : params'.map Symbol.ty = params.map fun param => param.ty.renumber ins) (position : Nat)
    (start : Place) (ty : Ty) :
    Agree Eq (requireArgument table callee params position start ty)
      (requireArgument table' callee params' position start (ty.renumber ins)) := by
  have types : params'[position]?.map Symbol.ty =
      params[position]?.map fun param => param.ty.renumber ins := by
    rw [← List.getElem?_map, same, List.getElem?_map]
  unfold requireArgument
  cases found : params[position]? with
  | none =>
    obtain found' : params'[position]? = none := by simpa [found] using types
    rw [found']
    exact agree_violate ..
  | some param =>
    obtain ⟨param', found', sameTy⟩ : ∃ param', params'[position]? = some param' ∧
        param'.ty = param.ty.renumber ins := by
      simpa [found] using types
    simp only [found', sameTy, Ty.accepts_renumber]
    exact agree_kept rfl

theorem agree_typeOfCall (callee : Name) {symbol symbol' : Symbol}
    (same : symbol.Renumbered ins symbol') (given : Nat) :
    Agree (Operand.Renumbered ins) (typeOfCall callee symbol given)
      (typeOfCall callee symbol' given) := by
  have lengths : symbol'.args.length = symbol.args.length := by
    simpa using congrArg List.length same.args
  unfold typeOfCall
  rw [lengths, same.ty]
  exact agree_broken (related_pure rfl)

/-- The type of a literal is not that of a struct. -/
theorem agree_typeOfLiteral (form : LiteralForm) (text : Name) :
    Agree (Operand.Renumbered ins) (typeOfLiteral form text) (typeOfLiteral form text) := by
  cases form with
  | integer | real | character =>
    apply (agree_refl _).behind
    intro _
    exact related_pure rfl
  | string =>
    apply (agree_refl _).behind
    intro contents
    exact agree_broken (related_pure rfl)

end Expr

/-! ### Expressions -/

open PlainC.Expr

mutual

theorem Expr.agree_type (h : table.Widened ins table') : ∀ expr : Expr, ins.SparesAll expr.parts →
    Agree (Operand.Renumbered ins) (expr.type table) (expr.type table')
  | .literal form text, _ => agree_typeOfLiteral form text
  | .reference name, spares => by
    rw [Expr.parts, Insertion.sparesAll_name] at spares
    exact agree_typeOfReference h spares
  | .callEmpty callee opening closing, spares => by
    simp only [Expr.parts, Insertion.sparesAll_append, Insertion.sparesAll_name] at spares
    apply (agree_requireFunction h spares.1.1).bind
    intro symbol symbol' same
    exact agree_typeOfCall callee same 0
  | .call callee opening args closing, spares => by
    simp only [Expr.parts, Insertion.sparesAll_append, Insertion.sparesAll_name] at spares
    apply (agree_requireFunction h spares.1.1.1).bind
    intro symbol symbol' same
    apply (Args.agree_check h callee same.args 0 args spares.1.2).behind
    intro _
    apply (agree_refl (requireMark .rightParen closing)).behind
    intro _
    exact agree_typeOfCall callee same args.length
  | .paren opening inner closing, spares => by
    simp only [Expr.parts, Insertion.sparesAll_append] at spares
    apply (agree_refl (backtracked 1 opening)).behind
    intro _
    apply (Expr.agree_type h inner spares.1.2).bind
    rintro operand _ rfl
    apply (agree_refl (requireMark .rightParen closing)).behind
    intro _
    exact related_pure rfl
  | .element array opening index closing, spares => by
    simp only [Expr.parts, Insertion.sparesAll_append] at spares
    apply (Expr.agree_type h array spares.1.1.1).bind
    rintro base _ rfl
    apply (agree_requireArray opening base.ty).behind
    intro _
    apply (Expr.agree_type h index spares.1.2).bind
    rintro operand _ rfl
    apply (agree_requireIndex index.start operand.ty).behind
    intro _
    apply (agree_refl (requireMark .rightBracket closing)).behind
    intro _
    exact related_pure rfl
  | .member record dot slot, spares => by
    simp only [Expr.parts, Insertion.sparesAll_append] at spares
    apply (Expr.agree_type h record spares.1.1).bind
    rintro operand _ rfl
    apply (agree_refl (require .memberName slot)).behind
    intro name
    exact agree_typeOfMember h dot operand name
  | .unary op operand, spares => by
    rw [Expr.parts, Insertion.sparesAll_append] at spares
    have checked := Expr.agree_type h operand spares.2
    simp only [Expr.type]
    split
    · apply checked.withoutFirst.bind
      rintro value _ rfl
      exact agree_typeOfUnary value.ty
    · apply checked.bind
      rintro value _ rfl
      exact agree_typeOfUnary value.ty
  | .cast opening target closing operand, spares => by
    simp only [Expr.parts, Insertion.sparesAll_append] at spares
    apply (target.agree_resolve h spares.1.1.2).bind
    rintro ty _ rfl
    apply (agree_refl (requireMark .rightParen closing)).behind
    intro _
    apply (Expr.agree_type h operand spares.2).bind
    rintro value _ rfl
    exact agree_typeOfCast operand.start ty value.ty
  | .binary op left right, spares => by
    simp only [Expr.parts, Insertion.sparesAll_append] at spares
    apply (Expr.agree_type h left spares.1.1).bind
    rintro l _ rfl
    apply (Expr.agree_type h right spares.2).bind
    rintro r _ rfl
    exact agree_typeOfBinary l.ty r.ty
  | .assign target op value, spares => by
    simp only [Expr.parts, Insertion.sparesAll_append] at spares
    apply (Expr.agree_type h target spares.1.1).bind
    rintro t _ rfl
    apply (Expr.agree_type h value spares.2).bind
    rintro v _ rfl
    exact agree_typeOfAssign target.start op t v.ty
  | .missing instead, _ => agree_unexpected .expression instead

theorem Args.agree_check (h : table.Widened ins table') (callee : Name)
    {params params' : List Symbol}
    (same : params'.map Symbol.ty = params.map fun param => param.ty.renumber ins)
    (position : Nat) : ∀ args : Args, ins.SparesAll args.parts →
      Agree Eq (args.check table callee params position) (args.check table' callee params' position)
  | .last arg, spares => by
    apply (Expr.agree_type h arg spares).bind
    rintro value _ rfl
    exact agree_requireArgument callee same position arg.start value.ty
  | .more arg comma rest, spares => by
    simp only [Args.parts, Insertion.sparesAll_append] at spares
    apply (Expr.agree_type h arg spares.1.1).bind
    rintro value _ rfl
    apply (agree_requireArgument callee same position arg.start value.ty).behind
    intro _
    exact Args.agree_check h callee same (position + 1) rest spares.2

end

end PlainC
