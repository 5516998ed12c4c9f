import PlainC.Proofs.Cursor.Refining.Statements

set_option autoImplicit false

/-!
Top-level declarations: what the parser with a cursor makes of them is what the analysis does, up to
the first end of input.
-/

namespace PlainC

namespace Cursor

namespace Parser

open Walk

variable {tape : List Lexeme} {k : Nat} {last : Lexeme} {barrier : Barrier tape k last}

/-- A production declines, and the cursor is set back to a checkpoint that was clear. -/
theorem refines_undone {checkpoint : State} (clear : Clear tape checkpoint.position) :
    Refines barrier Eq
      (do
        restore checkpoint.position
        return false)
      (do
        OnePass.Analysis.restore (checkpoint.view tape k)
        return false) := by
  refine (refines_restore clear).seq fun _ => ?_
  exact refines_pure rfl

/-! ### Structs -/

theorem refines_members : Refines barrier Eq members OnePass.members := by
  refine refines_bounded fun fuel fuel' le =>
    refines_repeating ?_ (fun _ _ => refines_pure rfl) _ fuel fuel' 0 () le
  exact refines_varDeclaration.seq fun
    | true => refines_pure rfl
    | false => refines_pure rfl

theorem refines_structBody (name : Name) :
    Refines barrier Eq (structBody name) (OnePass.structBody name) := by
  refine refines_get.bind ?_
  rintro outer _ ⟨rfl, -⟩
  refine (refines_store _).seq fun _ => ?_
  refine (refines_update fun _ => rfl).seq fun _ => ?_
  refine refines_members.seq fun _ => ?_
  refine (refines_update fun _ => rfl).seq fun _ => ?_
  refine (refines_expect _).seq fun _ => ?_
  exact (refines_expect _).thenNoted _

theorem refines_structDeclaration :
    Refines barrier Eq structDeclaration OnePass.structDeclaration := by
  refine refines_get.bind ?_
  rintro checkpoint _ ⟨rfl, clear⟩
  refine (refines_keyword? _).seq fun
    | none => refines_pure rfl
    | some _ => ?_
  refine (refines_expectName _).seq fun name => ?_
  refine (refines_mark? _).seq fun
    | none => refines_undone clear
    | some _ => ?_
  refine (refines_structBody name).seq fun _ => ?_
  exact refines_pure rfl

/-! ### Functions -/

theorem refines_resultType : Refines barrier Eq resultType OnePass.resultType := by
  refine (refines_keyword? _).seq fun
    | some _ => refines_pure rfl
    | none => ?_
  refine refines_typeBase.seq fun
    | none => refines_pure rfl
    | some base => ?_
  exact (refines_operatorToken? _).seq fun
    | none => refines_pure rfl
    | some _ => refines_pure rfl

theorem refines_param (index depth : Nat) :
    Refines barrier Eq (param index depth) (OnePass.param index depth) := by
  refine refines_typeBase.seq fun
    | none => refines_unexpected _
    | some base => ?_
  refine (refines_expectName _).seq fun name => ?_
  refine refines_extent.seq fun extent => ?_
  refine (refines_store _).seq fun _ => ?_
  exact refines_update fun _ => rfl

theorem refines_behindParams (outer : State) (ty : Ty) (name : Name) :
    Refines barrier Eq (behindParams outer.memory ty name)
      (OnePass.behindParams (outer.view tape k) ty name) := by
  refine (refines_expect _).seq fun _ => ?_
  refine (refines_compoundStatement _).seq fun
    | true => ?_
    | false => refines_unexpected _
  rw [if_pos rfl, if_pos rfl]
  exact (refines_update fun _ => rfl).noted _

theorem refines_functionBody (ty : Ty) (name : Name) :
    Refines barrier Eq (functionBody ty name) (OnePass.functionBody ty name) := by
  refine refines_get.bind ?_
  rintro outer _ ⟨rfl, -⟩
  refine (refines_store _).seq fun _ => ?_
  refine (refines_update fun _ => rfl).seq fun _ => ?_
  refine (refines_unlessSeen _ (refines_commas (refines_param _ _))).seq fun _ => ?_
  exact refines_behindParams outer ty name

theorem refines_functionDeclaration :
    Refines barrier Eq functionDeclaration OnePass.functionDeclaration := by
  refine refines_get.bind ?_
  rintro checkpoint _ ⟨rfl, clear⟩
  refine refines_resultType.seq fun
    | none => refines_pure rfl
    | some ty => ?_
  refine refines_name?.seq fun
    | none => refines_undone clear
    | some name => ?_
  refine (refines_mark? _).seq fun
    | none => refines_undone clear
    | some _ => ?_
  refine (refines_functionBody ty name).seq fun _ => ?_
  exact refines_pure rfl

/-! ### Programs -/

theorem refines_declaration : Refines barrier Eq declaration OnePass.declaration := by
  refine refines_structDeclaration.seq fun
    | true => refines_pure rfl
    | false => ?_
  refine refines_functionDeclaration.seq fun
    | true => refines_pure rfl
    | false => ?_
  exact refines_varDeclaration.seq fun
    | true => refines_pure rfl
    | false => refines_unexpected _

theorem refines_declarations : Refines barrier Eq declarations OnePass.declarations :=
  refines_bounded fun fuel fuel' le => refines_repeating (refines_unlessEnded reads_atEnd)
    (fun _ _ => refines_declaration) _ fuel fuel' 0 () le

end Parser

end Cursor

end PlainC
