import PlainC.Proofs.Cursor.Refining.Expressions

set_option autoImplicit false

/-!
Variables and statements: what the parser with a cursor makes of them is what the analysis does.
-/

namespace PlainC

namespace Cursor

namespace Parser

open Walk

variable {tape : List Lexeme} {k : Nat} {last : Lexeme} {barrier : Barrier tape k last}

theorem refines_commas {item : Parser Unit} {item' : OnePass.Analysis Unit}
    (items : Refines barrier Eq item item') :
    Refines barrier Eq (commas item) (OnePass.commas item') := by
  refine Refines.turned ?_ _ _
  refine items.seq fun _ => ?_
  exact refines_bounded fun fuel fuel' le =>
    refines_repeating (refines_mark? _) (fun _ _ => items) _ fuel fuel' 1 () le

theorem refines_unlessEnded {ended : Parser Bool} {ended' : Parse Bool}
    (reads : Reads barrier ended ended') :
    Refines barrier Eq (unlessEnded ended) (OnePass.unlessEnded ended') := by
  refine reads.refines.seq ?_
  rintro (_ | _)
  · exact refines_pure rfl
  · exact refines_pure rfl

theorem refines_unlessSeen (mark : Delimiter) {parser : Parser Unit}
    {analysis : OnePass.Analysis Unit} (refines : Refines barrier Eq parser analysis) :
    Refines barrier Eq (unlessSeen mark parser) (OnePass.unlessSeen mark analysis) := by
  refine (reads_sees _).refines.seq ?_
  rintro (_ | _)
  · exact refines
  · exact refines_pure rfl

/-! ### Variables -/

theorem refines_initializer (ty : Ty) :
    Refines barrier Eq (initializer ty) (OnePass.initializer ty) := by
  refine (refines_mark? _).seq ?_
  rintro (_ | opening)
  · refine refines_peek.seq fun start => ?_
    refine refines_expression.seq fun source => ?_
    exact refines_check _
  · refine (refines_check _).seq fun _ => ?_
    refine (refines_mark? _).seq ?_
    rintro (_ | closing)
    · refine (refines_bounded fun fuel fuel' le =>
        refines_arguments refines_expression _ fuel fuel' 0 le).seq fun given => ?_
      refine (refines_expect _).seq fun _ => ?_
      exact refines_check _
    · exact refines_check _

theorem refines_initialized (region : Region) (name : Name) (ty : Ty) :
    Refines barrier Eq (initialized region name ty) (OnePass.initialized region name ty) := by
  refine (refines_operatorToken? _).seq ?_
  rintro (_ | op)
  · exact refines_pure rfl
  · cases region with
    | members => exact refines_check _
    | topLevel | body => exact refines_initializer ty

theorem refines_declarator (base : Base) :
    Refines barrier Eq (declarator base) (OnePass.declarator base) := by
  refine (refines_expectName _).seq fun name => ?_
  refine refines_extent.seq fun extent => ?_
  refine refines_get.bind ?_
  rintro s _ ⟨rfl, -⟩
  refine (refines_initialized _ _ _).seq fun ty => ?_
  exact refines_store _

theorem refines_varDeclaration : Refines barrier Eq varDeclaration OnePass.varDeclaration := by
  refine refines_typeBase.seq ?_
  rintro (_ | base)
  · exact refines_pure rfl
  · refine (refines_commas (refines_declarator base)).seq fun _ => ?_
    refine (refines_expect _).seq fun _ => ?_
    exact refines_pure rfl

/-! ### Simple statements -/

theorem refines_unused : Refines barrier Eq unused OnePass.unused := by
  refine refines_expression.seq fun _ => ?_
  exact refines_pure rfl

theorem refines_tested : Refines barrier Eq tested OnePass.tested := by
  refine refines_peek.seq fun start => ?_
  refine refines_expression.seq fun value => ?_
  exact refines_check _

theorem refines_condition : Refines barrier Eq condition OnePass.condition := by
  refine (refines_expect _).seq fun _ => ?_
  refine refines_tested.seq fun _ => ?_
  exact refines_expect _

theorem refines_forHeader : Refines barrier Eq forHeader OnePass.forHeader := by
  refine (refines_expect _).seq fun _ => ?_
  refine (refines_unlessSeen _ refines_unused).seq fun _ => ?_
  refine (refines_expect _).seq fun _ => ?_
  refine (refines_unlessSeen _ refines_tested).seq fun _ => ?_
  refine (refines_expect _).seq fun _ => ?_
  refine (refines_unlessSeen _ refines_unused).seq fun _ => ?_
  exact refines_expect _

theorem refines_returnValue (scope : FunctionScope) (word : Place) :
    Refines barrier Eq (returnValue scope word) (OnePass.returnValue scope word) := by
  refine (reads_sees _).refines.seq ?_
  rintro (_ | _)
  · refine refines_expression.seq fun value => ?_
    refine (refines_check _).seq fun _ => ?_
    exact refines_expect _
  · refine (refines_check _).seq fun _ => ?_
    exact refines_expect _

theorem refines_breakLoop (word : Place) :
    Refines barrier Eq (breakLoop word) (OnePass.breakLoop word) := by
  refine refines_get.bind ?_
  rintro s _ ⟨rfl, -⟩
  refine (refines_check _).seq fun _ => ?_
  exact refines_expect _

theorem refines_expressionStatement :
    Refines barrier Eq expressionStatement OnePass.expressionStatement := by
  refine refines_peek.seq fun next => ?_
  by_cases begins : Expr.canBegin next.value = true
  · simp only [begins, if_true]
    refine refines_unused.seq fun _ => ?_
    exact refines_expect _
  · simp only [begins]
    exact refines_unexpected _

/-! ### Statements around others -/

section

variable {nested : Parser Unit} {nested' : OnePass.Analysis Unit}
  (statements : Refines barrier Eq nested nested')

include statements

/-- The end of input is seen in front of any item. -/
theorem refines_item : Refines barrier Eq (item nested) (OnePass.item nested') := by
  refine reads_atEnd.refines.seq ?_
  rintro (_ | _)
  · refine refines_varDeclaration.seq ?_
    rintro (_ | _)
    · exact statements
    · exact refines_pure rfl
  · exact refines_unexpected _

theorem refines_compound : Refines barrier Eq (compound nested) (OnePass.compound nested') := by
  refine (refines_mark? _).seq ?_
  rintro (_ | opening)
  · exact refines_pure rfl
  · refine (refines_bounded fun fuel fuel' le => refines_repeating
      (refines_unlessEnded (reads_sees _)) (fun _ _ => refines_item statements) _ fuel fuel' 0 ()
      le).seq fun _ => ?_
    refine (refines_expect _).seq fun _ => ?_
    exact refines_pure rfl

theorem refines_ifStatement :
    Refines barrier Eq (ifStatement nested) (OnePass.ifStatement nested') := by
  refine refines_condition.seq fun _ => ?_
  refine statements.seq fun _ => ?_
  refine (refines_keyword? _).seq ?_
  rintro (_ | word)
  · exact refines_pure rfl
  · exact statements

theorem refines_loopBody : Refines barrier Eq (loopBody nested) (OnePass.loopBody nested') := by
  refine (refines_update fun _ => rfl).seq fun _ => ?_
  refine statements.seq fun _ => ?_
  exact refines_update fun _ => rfl

theorem refines_whileStatement :
    Refines barrier Eq (whileStatement nested) (OnePass.whileStatement nested') := by
  refine refines_condition.seq fun _ => ?_
  exact refines_loopBody statements

theorem refines_forStatement :
    Refines barrier Eq (forStatement nested) (OnePass.forStatement nested') := by
  refine refines_forHeader.seq fun _ => ?_
  exact refines_loopBody statements

end

theorem refines_statementWithin (scope : FunctionScope) : ∀ fuel fuel', fuel ≤ fuel' →
    Refines barrier Eq (statementWithin scope fuel') (OnePass.statementWithin scope fuel) := by
  intro fuel
  induction fuel with
  | zero => exact fun _ _ => refines_cutOff _ _
  | succ fuel ih =>
    rintro (_ | fuel') le
    · cases le
    have nested := ih fuel' (Nat.le_of_succ_le_succ le)
    refine (refines_compound nested).seq fun
      | true => refines_pure rfl
      | false => ?_
    refine (refines_keyword? _).seq fun
      | some _ => refines_ifStatement nested
      | none => ?_
    refine (refines_keyword? _).seq fun
      | some _ => refines_whileStatement nested
      | none => ?_
    refine (refines_keyword? _).seq fun
      | some _ => refines_forStatement nested
      | none => ?_
    refine (refines_keyword? _).seq fun
      | some word => refines_breakLoop word
      | none => ?_
    refine (refines_keyword? _).seq fun
      | some word => refines_returnValue scope word
      | none => ?_
    refine (refines_mark? _).seq fun
      | some _ => refines_pure rfl
      | none => refines_expressionStatement

theorem refines_compoundStatement (scope : FunctionScope) :
    Refines barrier Eq (compoundStatement scope) (OnePass.compoundStatement scope) :=
  refines_compound (refines_bounded (refines_statementWithin scope))

end Parser

end Cursor

end PlainC
