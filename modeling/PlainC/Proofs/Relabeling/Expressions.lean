import PlainC.Expr.Typing
import PlainC.Proofs.Relabeling.Tables

set_option autoImplicit false

/-!
The types of relabeled expressions: the same ones, or the same fault.
-/

namespace PlainC

open Checked

/-! ### Places -/

section

variable (r : Relabeling)

@[simp] theorem Size.start_relabel : ∀ size : Size, (size.relabel r).start = r.place size.start
  | .literal _ | .signed _ _ | .paren _ _ _ | .missing _ => rfl
  | .binary _ left _ => Size.start_relabel left

@[simp] theorem Expr.start_relabel : ∀ expr : Expr, (expr.relabel r).start = r.place expr.start
  | .literal .. | .reference .. | .call .. | .callEmpty .. | .paren .. | .unary .. | .cast ..
  | .missing .. => rfl
  | .element array .. => Expr.start_relabel array
  | .member record .. => Expr.start_relabel record
  | .binary _ left _ => Expr.start_relabel left
  | .assign target .. => Expr.start_relabel target

@[simp] theorem Expr.opensWithParen_relabel : ∀ expr : Expr,
    (expr.relabel r).opensWithParen = expr.opensWithParen
  | .element array .. => Expr.opensWithParen_relabel array
  | .member record .. => Expr.opensWithParen_relabel record
  | .literal .. | .reference .. | .call .. | .callEmpty .. | .paren .. | .unary .. | .cast ..
  | .binary .. | .assign .. | .missing .. => rfl

@[simp] theorem Args.length_relabel (args : Args) : (args.relabel r).length = args.length := by
  cases args with
  | last => rfl
  | more arg comma rest => exact congrArg (· + 1) (Args.length_relabel rest)

end

variable {r : Relabeling} {table table' : SymbolTable}

/-! ### Sizes and type names -/

theorem Size.alike_atOperator (place : Place) (value : Except Violation Int) :
    Checked.Alike r Eq (atOperator place value) (atOperator (r.place place) value) := by
  cases value with
  | ok value => exact alike_pure rfl
  | error violation => exact alike_violate_eq (fun _ => rfl) place

theorem Size.alike_value (size : Size) :
    Checked.Alike r Eq size.value (size.relabel r).value := by
  induction size with
  | literal text => exact alike_ofLiteral text.place _
  | signed sign operand ih =>
    apply ih.behind
    intro value
    exact alike_atOperator sign.place _
  | binary op left right ihLeft ihRight =>
    apply ihLeft.behind
    intro l
    apply ihRight.behind
    intro r
    exact alike_atOperator op.place _
  | paren opening inner closing ih =>
    apply ih.behind
    intro value
    apply (alike_requireMark .rightParen closing).behind
    intro _
    exact alike_pure rfl
  | missing instead =>
    refine alike_violate_eq (fun keeps => ?_) instead.place
    exact congrArg _ (instead.value.relabel_of_keepsNames keeps)

theorem BaseName.alike_resolve (h : table.Alike r table') (base : BaseName) :
    Checked.Alike r Eq (base.resolve table) ((base.relabel r).resolve table') := by
  cases base with
  | int | double | char => exact alike_pure rfl
  | struct word slot =>
    apply (alike_require .structName slot).bind
    rintro name _ rfl
    simp only [Name.rename, h.findStruct?]
    cases table.findStruct? name.value with
    | some index => exact alike_pure rfl
    | none => exact alike_violate_eq (fun keeps => congrArg _ (keeps name.value)) name.place

namespace ArrayPart

theorem looksLikeOperand_relabel (kind : Kind) :
    looksLikeOperand (kind.relabel r) = looksLikeOperand kind := by
  cases kind <;> rfl

theorem alike_requireClosing (slot : Slot Place) :
    Checked.Alike r Eq (requireClosing slot) (requireClosing (slot.relabel r r.place)) := by
  cases slot with
  | found place => exact alike_pure rfl
  | missing instead =>
    simp only [requireClosing, Slot.relabel, Lexeme.relabel, looksLikeOperand_relabel]
    exact alike_broken (fun _ => rfl) (alike_unexpected _ instead)

theorem alike_extent (array : ArrayPart) :
    Checked.Alike r Eq array.extent (array.relabel r).extent := by
  cases array with
  | absent | unsized => exact alike_pure rfl
  | sized opening size closing =>
    apply (size.alike_value).behind
    intro value
    apply (alike_requireClosing closing).behind
    intro _
    rw [Size.start_relabel]
    apply alike_broken (fun _ => rfl)
    exact alike_broken (fun _ => rfl) (alike_pure rfl)

end ArrayPart

theorem TypeName.alike_resolve (h : table.Alike r table') (name : TypeName) :
    Checked.Alike r Eq (name.resolve table) ((name.relabel r).resolve table') := by
  apply (name.base.alike_resolve h).behind
  intro base
  apply (name.array.alike_extent).behind
  intro extent
  exact alike_pure rfl

/-! ### Operators -/

namespace Expr

section

variable (h : table.Alike r table')

include h

theorem alike_invalidOperand (op : At Operator) (ty : Ty) :
    Checked.Alike r Eq (invalidOperand table op ty) (invalidOperand table' (op.move r) ty) :=
  alike_violate_eq (fun keeps => by rw [h.typeName keeps]; rfl) op.place

theorem alike_typeOfTest (test : Ty → Bool) (op : At Operator) (left right : Ty) :
    Checked.Alike r Eq (typeOfTest table test op left right)
      (typeOfTest table' test (op.move r) left right) := by
  apply alike_ite
  · intro _
    exact alike_invalidOperand h op left
  intro _
  apply alike_ite
  · intro _
    exact alike_invalidOperand h op right
  · intro _
    exact alike_pure rfl

theorem alike_typeOfArithmetic (op : At Operator) (left right : Ty) :
    Checked.Alike r Eq (typeOfArithmetic table op left right)
      (typeOfArithmetic table' (op.move r) left right) := by
  unfold typeOfArithmetic
  cases left.promote? right with
  | none => exact alike_invalidOperand h op _
  | some ty =>
    exact alike_broken (fun _ => rfl) (alike_pure rfl)

theorem alike_typeOfBinary (op : At Operator) (left right : Ty) :
    Checked.Alike r Eq (typeOfBinary table op left right)
      (typeOfBinary table' (op.move r) left right) := by
  obtain ⟨op, place⟩ := op
  cases op with
  | conj | disj => exact alike_typeOfTest h Ty.isTestable _ left right
  | equal | unequal | less | lessEqual | greater | greaterEqual =>
    exact alike_typeOfTest h Ty.isComparable _ left right
  | assign | bang | dot | plus | minus | star | slash | percent =>
    exact alike_typeOfArithmetic h _ left right

theorem alike_typeOfUnary (op : At Operator) (ty : Ty) :
    Checked.Alike r Eq (typeOfUnary table op ty) (typeOfUnary table' (op.move r) ty) := by
  have invalid := alike_invalidOperand h op ty
  apply alike_ite
  · intro _
    exact alike_ite (fun _ => alike_pure rfl) fun _ => invalid
  · intro _
    exact alike_ite (fun _ => alike_pure rfl) fun _ => invalid

theorem alike_typeOfAssign (start op : Place) (target : Operand) (value : Ty) :
    Checked.Alike r Eq (typeOfAssign table start op target value)
      (typeOfAssign table' (r.place start) (r.place op) target value) := by
  apply alike_broken (fun _ => rfl)
  apply alike_broken (fun keeps => by rw [h.typeName keeps])
  exact alike_broken (fun keeps => by rw [h.typeName keeps, h.typeName keeps]) (alike_pure rfl)

theorem alike_typeOfCast (start : Place) (target value : Ty) :
    Checked.Alike r Eq (typeOfCast table start target value)
      (typeOfCast table' (r.place start) target value) := by
  exact alike_kept rfl (fun keeps => by rw [h.typeName keeps, h.typeName keeps])

theorem alike_requireArray (opening : Place) (ty : Ty) :
    Checked.Alike r Eq (requireArray table opening ty)
      (requireArray table' (r.place opening) ty) := by
  exact alike_kept rfl (fun keeps => by rw [h.typeName keeps])

theorem alike_requireIndex (start : Place) (ty : Ty) :
    Checked.Alike r Eq (requireIndex table start ty) (requireIndex table' (r.place start) ty) := by
  exact alike_kept rfl (fun keeps => by rw [h.typeName keeps])

theorem alike_typeOfMember (dot : Place) (record : Operand) (member : Name) :
    Checked.Alike r Eq (typeOfMember table dot record member)
      (typeOfMember table' (r.place dot) record (member.rename r)) := by
  unfold typeOfMember
  split
  · rename_i index _ _
    rcases rel_cases (Symbol.rel_member? (h.structAt? index) member.value) with
        ⟨none, none'⟩ | ⟨symbol, symbol', found, found', same⟩
    · simp only [Name.rename, none, none']
      refine alike_violate_eq (fun keeps => ?_) member.place
      rw [h.typeName keeps, keeps]
    · simp only [Name.rename, found, found']
      exact alike_pure (by rw [same.ty])
  · exact alike_violate_eq (fun keeps => by rw [h.typeName keeps]) dot

/-! ### Names -/

theorem alike_lookUp (name : Name) :
    Checked.Alike r (Symbol.LooksLike r) (lookUp table name) (lookUp table' (name.rename r)) := by
  unfold lookUp
  rcases rel_cases (h.find? name.value) with ⟨none, none'⟩ | ⟨symbol, symbol', found, found', same⟩
  · simp only [Name.rename, none, none']
    exact alike_violate_eq (fun keeps => congrArg _ (keeps name.value)) name.place
  · simp only [Name.rename, found, found']
    exact alike_pure same

theorem alike_typeOfReference (name : Name) :
    Checked.Alike r Eq (typeOfReference table name) (typeOfReference table' (name.rename r)) := by
  apply (alike_lookUp h name).bind
  intro symbol symbol' same
  rw [same.cls, same.ty]
  cases symbol.cls with
  | var => exact alike_pure rfl
  | function | external | struct =>
    exact alike_violate_eq (fun keeps => congrArg _ (keeps name.value)) name.place

theorem alike_requireFunction (name : Name) :
    Checked.Alike r (Symbol.LooksLike r) (requireFunction table name)
      (requireFunction table' (name.rename r)) := by
  apply (alike_lookUp h name).bind
  intro symbol symbol' same
  rw [same.isCallable]
  exact alike_kept same (fun keeps => congrArg _ (keeps name.value))

theorem alike_requireArgument (callee : Name) {params params' : List Symbol}
    (same : params'.map Symbol.ty = params.map Symbol.ty) (position : Nat) (start : Place)
    (ty : Ty) :
    Checked.Alike r Eq (requireArgument table callee params position start ty)
      (requireArgument table' (callee.rename r) params' position (r.place start) ty) := by
  have lengths : params'.length = params.length := by simpa using congrArg List.length same
  have types : params'[position]?.map Symbol.ty = params[position]?.map Symbol.ty := by
    rw [← List.getElem?_map, same, List.getElem?_map]
  unfold requireArgument
  cases found : params[position]? with
  | none =>
    obtain found' : params'[position]? = none := by simpa [found] using types
    rw [found']
    refine alike_violate_eq (fun keeps => ?_) start
    rw [Name.rename, keeps, lengths]
  | some param =>
    obtain ⟨param', found', sameTy⟩ : ∃ param', params'[position]? = some param' ∧
        param'.ty = param.ty := by
      simpa [found] using types
    simp only [found', sameTy]
    refine alike_kept rfl fun keeps => ?_
    rw [Name.rename, keeps, h.typeName keeps, h.typeName keeps]

end

theorem alike_typeOfCall (callee : Name) {symbol symbol' : Symbol}
    (same : symbol.LooksLike r symbol') (given : Nat) :
    Checked.Alike r Eq (typeOfCall callee symbol given)
      (typeOfCall (callee.rename r) symbol' given) := by
  have lengths : symbol'.args.length = symbol.args.length := by
    simpa using congrArg List.length same.args
  unfold typeOfCall
  rw [lengths, same.ty]
  exact alike_broken (fun keeps => by rw [Name.rename, keeps]) (alike_pure rfl)

theorem alike_typeOfText (place : Place) (bytes : Nat) :
    Checked.Alike r Eq (typeOfText place bytes) (typeOfText (r.place place) bytes) := by
  exact alike_broken (fun _ => rfl) (alike_pure rfl)

theorem alike_typeOfLiteral (form : LiteralForm) (text : Name) :
    Checked.Alike r Eq (typeOfLiteral form text) (typeOfLiteral form (text.move r)) := by
  cases form with
  | integer | real | character =>
    apply (alike_ofLiteral text.place _).behind
    intro _
    exact alike_pure rfl
  | string =>
    apply (alike_ofLiteral text.place _).behind
    intro contents
    exact alike_typeOfText text.place _

end Expr

/-! ### Expressions -/

open PlainC.Expr

mutual

theorem Expr.alike_type (h : table.Alike r table') : ∀ expr : Expr,
    Checked.Alike r Eq (expr.type table) ((expr.relabel r).type table')
  | .literal form text => alike_typeOfLiteral form text
  | .reference name => alike_typeOfReference h name
  | .callEmpty callee opening closing => by
    apply (alike_requireFunction h callee).bind
    intro symbol symbol' same
    exact alike_typeOfCall callee same 0
  | .call callee opening args closing => by
    apply (alike_requireFunction h callee).bind
    intro symbol symbol' same
    apply (Args.alike_check h callee same.args 0 args).behind
    intro _
    apply (alike_requireMark .rightParen closing).behind
    intro _
    rw [Args.length_relabel]
    exact alike_typeOfCall callee same args.length
  | .paren opening inner closing => by
    apply (alike_write _ _).behind
    intro _
    apply (Expr.alike_type h inner).behind
    intro operand
    apply (alike_requireMark .rightParen closing).behind
    intro _
    exact alike_pure rfl
  | .element array opening index closing => by
    apply (Expr.alike_type h array).behind
    intro base
    apply (alike_requireArray h opening base.ty).behind
    intro _
    apply (Expr.alike_type h index).behind
    intro operand
    rw [Expr.start_relabel]
    apply (alike_requireIndex h index.start operand.ty).behind
    intro _
    apply (alike_requireMark .rightBracket closing).behind
    intro _
    exact alike_pure rfl
  | .member record dot slot => by
    apply (Expr.alike_type h record).behind
    intro operand
    apply (alike_require .memberName slot).bind
    rintro name _ rfl
    exact alike_typeOfMember h dot operand name
  | .unary op operand => by
    have checked := Expr.alike_type h operand
    simp only [Expr.type, Expr.relabel, Expr.opensWithParen_relabel]
    split
    · apply checked.withoutFirst.behind
      intro value
      exact alike_typeOfUnary h op value.ty
    · apply checked.behind
      intro value
      exact alike_typeOfUnary h op value.ty
  | .cast opening target closing operand => by
    apply (target.alike_resolve h).behind
    intro ty
    apply (alike_requireMark .rightParen closing).behind
    intro _
    apply (Expr.alike_type h operand).behind
    intro value
    rw [Expr.start_relabel]
    exact alike_typeOfCast h operand.start ty value.ty
  | .binary op left right => by
    apply (Expr.alike_type h left).behind
    intro l
    apply (Expr.alike_type h right).behind
    intro r
    exact alike_typeOfBinary h op l.ty r.ty
  | .assign target op value => by
    apply (Expr.alike_type h target).behind
    intro t
    apply (Expr.alike_type h value).behind
    intro v
    rw [Expr.start_relabel]
    exact alike_typeOfAssign h target.start op t v.ty
  | .missing instead => alike_unexpected .expression instead

theorem Args.alike_check (h : table.Alike r table') (callee : Name) {params params' : List Symbol}
    (same : params'.map Symbol.ty = params.map Symbol.ty) (position : Nat) : ∀ args : Args,
      Checked.Alike r Eq (args.check table callee params position)
        ((args.relabel r).check table' (callee.rename r) params' position)
  | .last arg => by
    apply (Expr.alike_type h arg).behind
    intro value
    rw [Expr.start_relabel]
    exact alike_requireArgument h callee same position arg.start value.ty
  | .more arg comma rest => by
    apply (Expr.alike_type h arg).behind
    intro value
    rw [Expr.start_relabel]
    apply (alike_requireArgument h callee same position arg.start value.ty).behind
    intro _
    exact Args.alike_check h callee same (position + 1) rest

end

end PlainC
