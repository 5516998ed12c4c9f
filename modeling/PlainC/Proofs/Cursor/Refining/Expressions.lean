import PlainC.Proofs.Cursor.Refining.Types

set_option autoImplicit false

/-!
Expressions: what the parser with a cursor makes of them is what the analysis does.
-/

namespace PlainC

namespace Cursor

namespace Parser

open Walk

variable {tape : List Lexeme} {k : Nat} {last : Lexeme} {barrier : Barrier tape k last}

theorem refines_extent : Refines barrier Eq extent OnePass.extent := by
  refine refines_arrayDecl.seq fun part => ?_
  exact refines_pure rfl

theorem refines_typeName : Refines barrier Eq typeName OnePass.typeName := by
  refine refines_typeBase.seq ?_
  rintro (_ | base)
  · exact refines_pure rfl
  · refine refines_extent.seq fun extent => ?_
    exact refines_pure rfl

/-! ### Operands -/

section

variable {nested : Parser Operand} {nested' : OnePass.Analysis Operand}
  (expressions : Refines barrier Eq nested nested')

include expressions

theorem refines_arguments (accept : SymbolTable → Nat → Place → Ty → Checked Unit) :
    ∀ fuel fuel' count, fuel ≤ fuel' →
      Refines barrier Eq (arguments nested accept fuel' count)
        (OnePass.arguments nested' accept fuel count) := by
  intro fuel
  induction fuel with
  | zero => exact fun _ _ _ => refines_cutOff _ _
  | succ fuel ih =>
    rintro (_ | fuel') count le
    · cases le
    · refine Refines.turned ?_ _ _
      refine refines_peek.seq fun start => ?_
      refine expressions.seq fun value => ?_
      refine (refines_check _).seq fun _ => ?_
      refine (refines_mark? _).seq ?_
      rintro (_ | comma)
      · exact refines_pure rfl
      · exact ih fuel' (count + 1) (Nat.le_of_succ_le_succ le)

theorem refines_nameOrCall (name : Name) :
    Refines barrier Eq (nameOrCall nested name) (OnePass.nameOrCall nested' name) := by
  refine (refines_mark? _).seq ?_
  rintro (_ | opening)
  · exact refines_check _
  · refine (refines_check _).seq fun symbol => ?_
    refine (refines_mark? _).seq ?_
    rintro (_ | closing)
    · refine (refines_bounded fun fuel fuel' le =>
        refines_arguments expressions _ fuel fuel' 0 le).seq fun given => ?_
      refine (refines_expect _).seq fun _ => ?_
      exact refines_check _
    · exact refines_check _

theorem refines_primary : Refines barrier Eq (primary nested) (OnePass.primary nested') := by
  refine refines_name?.seq ?_
  rintro (_ | name)
  · refine (reads_accept? rfl rfl).refines.seq ?_
    rintro (_ | ⟨⟨form, text⟩, place⟩)
    · refine (refines_mark? _).seq ?_
      rintro (_ | opening)
      · exact refines_unexpected _
      · refine expressions.seq fun value => ?_
        refine (refines_expect _).seq fun _ => ?_
        exact refines_pure rfl
    · exact refines_check _
  · exact refines_nameOrCall expressions name

omit expressions in
theorem refines_suffix? : Refines barrier Eq suffix? OnePass.suffix? := by
  refine (refines_mark? _).seq ?_
  rintro (_ | opening)
  · refine (refines_operatorToken? _).seq fun dot => ?_
    exact refines_pure rfl
  · exact refines_pure rfl

theorem refines_suffix (base : Operand) (mark : Place ⊕ Place) :
    Refines barrier Eq (suffix nested base mark) (OnePass.suffix nested' base mark) := by
  cases mark with
  | inl opening =>
    refine (refines_check _).seq fun _ => ?_
    refine refines_peek.seq fun start => ?_
    refine expressions.seq fun index => ?_
    refine (refines_check _).seq fun _ => ?_
    refine (refines_expect _).seq fun _ => ?_
    exact refines_pure rfl
  | inr dot =>
    refine (refines_expectName _).seq fun name => ?_
    exact refines_check _

theorem refines_suffixed {fuel fuel' : Nat} (le : fuel ≤ fuel') :
    Refines barrier Eq (suffixed nested fuel') (OnePass.suffixed nested' fuel) := by
  refine (refines_primary expressions).seq fun base => ?_
  exact refines_repeating refines_suffix? (refines_suffix expressions) _ fuel fuel' 0 base le

theorem refines_unary : ∀ fuel fuel', fuel ≤ fuel' →
    Refines barrier Eq (unary nested fuel') (OnePass.unary nested' fuel) := by
  intro fuel
  induction fuel with
  | zero => exact fun _ _ => refines_cutOff _ _
  | succ fuel ih =>
    rintro (_ | fuel') le
    · cases le
    · refine (refines_operator? _).seq ?_
      rintro (_ | op)
      · exact refines_suffixed expressions le
      · refine (ih fuel' (Nat.le_of_succ_le_succ le)).seq fun value => ?_
        exact refines_check _

/-- The cursor is set back to a checkpoint that was clear. -/
theorem refines_cast : ∀ fuel fuel', fuel ≤ fuel' →
    Refines barrier Eq (cast nested fuel') (OnePass.cast nested' fuel) := by
  intro fuel
  induction fuel with
  | zero => exact fun _ _ => refines_cutOff _ _
  | succ fuel ih =>
    rintro (_ | fuel') le
    · cases le
    · refine refines_get.bind ?_
      rintro checkpoint _ ⟨rfl, clear⟩
      refine (refines_mark? _).seq ?_
      rintro (_ | opening)
      · exact refines_unary expressions _ _ le
      · refine refines_typeName.seq ?_
        rintro (_ | target)
        · refine (refines_restore clear).seq fun _ => ?_
          exact refines_unary expressions _ _ le
        · refine (refines_expect _).seq fun _ => ?_
          refine refines_peek.seq fun start => ?_
          refine (ih fuel' (Nat.le_of_succ_le_succ le)).seq fun value => ?_
          exact refines_check _

end

/-! ### Operators -/

section

variable {operand : Parser Operand} {operand' : OnePass.Analysis Operand}
  (operands : Refines barrier Eq operand operand')

include operands

theorem refines_operators (ops : List Operator) {fuel fuel' : Nat} (le : fuel ≤ fuel') :
    Refines barrier Eq (operators ops fuel' operand) (OnePass.operators ops fuel operand') := by
  refine operands.seq fun left => ?_
  refine refines_repeating (refines_operator? ops) ?_ _ fuel fuel' 0 left le
  intro left op
  refine operands.seq fun right => ?_
  exact refines_check _

theorem refines_levels {fuel fuel' : Nat} (le : fuel ≤ fuel') : ∀ tighter : List (List Operator),
    Refines barrier Eq (levels fuel' operand tighter) (OnePass.levels fuel operand' tighter)
  | [] => operands
  | ops :: tighter => refines_operators (refines_levels le tighter) ops le

end

theorem refines_assign {nested : Parser Operand} {nested' : OnePass.Analysis Operand}
    (expressions : Refines barrier Eq nested nested') : ∀ fuel fuel', fuel ≤ fuel' →
      Refines barrier Eq (assign nested fuel') (OnePass.assign nested' fuel) := by
  intro fuel
  induction fuel with
  | zero => exact fun _ _ => refines_cutOff _ _
  | succ fuel ih =>
    rintro (_ | fuel') le
    · cases le
    · refine refines_peek.seq fun start => ?_
      refine (refines_levels (refines_cast expressions _ _ le) le _).seq fun target => ?_
      refine (refines_operatorToken? _).seq ?_
      rintro (_ | op)
      · exact refines_pure rfl
      · refine (ih fuel' (Nat.le_of_succ_le_succ le)).seq fun value => ?_
        exact refines_check _

theorem refines_expressionWithin : ∀ fuel fuel', fuel ≤ fuel' →
    Refines barrier Eq (expressionWithin fuel') (OnePass.expressionWithin fuel) := by
  intro fuel
  induction fuel with
  | zero => exact fun _ _ => refines_cutOff _ _
  | succ fuel ih =>
    rintro (_ | fuel') le
    · cases le
    · exact refines_assign (ih fuel' (Nat.le_of_succ_le_succ le)) _ _ le

theorem refines_expression : Refines barrier Eq expression OnePass.expression :=
  refines_bounded refines_expressionWithin

end Parser

end Cursor

end PlainC
