import PlainC.Proofs.Reading.Expr.Lexemes
import PlainC.Proofs.Relabeling.Expressions
import PlainC.Proofs.Relabeling.Reading.Expr
import PlainC.Proofs.Typing.Rules

set_option autoImplicit false

/-!
Types and places. What an expression is accepted as depends on the kinds of its lexemes only: the
same words have the same type wherever they stand, in front of any table.
-/

namespace PlainC

open Checked PlainC.Expr

section

variable {r : Relabeling} {table : SymbolTable}

/-- Checks that differ in places only give the same. -/
theorem Checked.Alike.gives_iff {α : Type} {x y : Checked α} (alike : Checked.Alike r Eq x y)
    {a : α} : y.Gives a ↔ x.Gives a := by
  rcases alike with ⟨b, _, given, given', rfl⟩ | ⟨fault, fault', failed, failed', -⟩
  · exact ⟨fun h => given'.unique h ▸ given, fun h => given.unique h ▸ given'⟩
  · exact iff_of_false (fun h => nomatch failed'.symm.trans h) fun h => nomatch failed.symm.trans h

theorem Slot.exists_found_relabel {α : Type} {change : α → α} {slot : Slot α} :
    (∃ value, slot.relabel r change = .found value) ↔ ∃ value, slot = .found value := by
  cases slot <;> simp [Slot.relabel]

section

variable (keeps : r.KeepsNames)

include keeps

theorem Slot.exists_name_relabel {slot : Slot Name} {p p' : Name → Prop}
    (same : ∀ name place, p' ⟨name.value, place⟩ ↔ p name) :
    (∃ name, slot.relabel r (Name.rename r) = .found name ∧ p' name) ↔
      ∃ name, slot = .found name ∧ p name := by
  cases slot with
  | missing instead => simp [Slot.relabel]
  | found name =>
    simp only [Slot.relabel, Slot.found.injEq, exists_eq_left', Name.rename, keeps name.value]
    exact same name _

theorem BaseName.gives_resolve_relabel {name : BaseName} {base : Base} :
    ((name.relabel r).resolve table).Gives base ↔ (name.resolve table).Gives base := by
  cases name with
  | int | double | char => exact Iff.rfl
  | struct word slot =>
    simp only [BaseName.relabel, resolve, gives_bind, gives_require]
    refine Slot.exists_name_relabel keeps fun name place => ?_
    cases table.findStruct? name.value <;> simp

theorem TypeName.gives_resolve_relabel {name : TypeName} {ty : Ty} :
    ((name.relabel r).resolve table).Gives ty ↔ (name.resolve table).Gives ty := by
  simp only [TypeName.relabel, resolve, gives_bind, BaseName.gives_resolve_relabel keeps,
    (name.array.alike_extent).gives_iff]

end

theorem Expr.gives_typeOfLiteral_move {form : LiteralForm} {text : Name} {operand : Operand} :
    (typeOfLiteral form (text.move r)).Gives operand ↔ (typeOfLiteral form text).Gives operand :=
  (alike_typeOfLiteral form text).gives_iff

theorem Expr.gives_typeOfBinary_move {op : At Operator} {left right : Ty} {operand : Operand} :
    (typeOfBinary table (op.move r) left right).Gives operand ↔
      (typeOfBinary table op left right).Gives operand := by
  obtain ⟨op, place⟩ := op
  cases op <;> simp only [Expr.typeOfBinary, At.move, gives_typeOfTest, gives_typeOfArithmetic]

mutual

theorem Expr.gives_type_relabel (keeps : r.KeepsNames) : ∀ (expr : Expr) {operand : Operand},
    ((expr.relabel r).type table).Gives operand ↔ (expr.type table).Gives operand
  | .literal form text, operand => Expr.gives_typeOfLiteral_move
  | .reference name, operand => by
    simp only [Expr.relabel, Expr.type, gives_typeOfReference, Name.rename, keeps name.value]
  | .callEmpty callee opening closing, operand => by
    simp only [Expr.relabel, Expr.type, gives_bind, gives_requireFunction,
      gives_typeOfCall, Name.rename, keeps callee.value]
  | .call callee opening args closing, operand => by
    simp only [Expr.relabel, Expr.type, gives_bind, gives_requireFunction,
      gives_typeOfCall, gives_requireMark, Slot.exists_found_relabel, Args.length_relabel,
      args.gives_check_relabel keeps _ callee, Name.rename, keeps callee.value]
  | .paren opening inner closing, operand => by
    simp only [Expr.relabel, Expr.type, gives_bind, Checked.backtracked, gives_write,
      gives_requireMark, Slot.exists_found_relabel, inner.gives_type_relabel keeps]
  | .element array opening index closing, operand => by
    simp only [Expr.relabel, Expr.type, gives_bind, gives_requireArray,
      gives_requireIndex, gives_requireMark, Slot.exists_found_relabel,
      array.gives_type_relabel keeps, index.gives_type_relabel keeps]
  | .member record dot slot, operand => by
    simp only [Expr.relabel, Expr.type, gives_bind, gives_require, record.gives_type_relabel keeps]
    refine exists_congr fun owner => and_congr_right fun _ => ?_
    exact Slot.exists_name_relabel keeps fun name place => by simp only [gives_typeOfMember]
  | .unary op operand', operand => by
    simp only [Expr.relabel, Expr.type, gives_bind, gives_ite, gives_withoutFirst,
      gives_typeOfUnary, At.move, ← or_and_right, Decidable.em, true_and,
      operand'.gives_type_relabel keeps]
  | .cast opening target closing operand', operand => by
    simp only [Expr.relabel, Expr.type, gives_bind, TypeName.gives_resolve_relabel keeps,
      gives_requireMark, Slot.exists_found_relabel, gives_typeOfCast,
      operand'.gives_type_relabel keeps]
  | .binary op left right, operand => by
    simp only [Expr.relabel, Expr.type, gives_bind, Expr.gives_typeOfBinary_move,
      left.gives_type_relabel keeps, right.gives_type_relabel keeps]
  | .assign target op value, operand => by
    simp only [Expr.relabel, Expr.type, gives_bind, gives_typeOfAssign,
      target.gives_type_relabel keeps, value.gives_type_relabel keeps]
  | .missing instead, operand => by
    simp only [Expr.relabel, Expr.type, gives_unexpected]

theorem Args.gives_check_relabel (keeps : r.KeepsNames) : ∀ (args : Args) (callee callee' : Name)
    {params : List Symbol} {position : Nat} {a : Unit},
    ((args.relabel r).check table callee params position).Gives a ↔
      (args.check table callee' params position).Gives a
  | .last arg, callee, callee', params, position, a => by
    simp only [Args.relabel, Args.check, gives_bind, gives_requireArgument,
      arg.gives_type_relabel keeps]
  | .more arg comma rest, callee, callee', params, position, a => by
    simp only [Args.relabel, Args.check, gives_bind, gives_requireArgument,
      arg.gives_type_relabel keeps, rest.gives_check_relabel keeps callee callee']

end

end

/-! ### The same words -/

/-- The kinds of the lexemes of an expression. -/
def Expr.kinds (expr : Expr) : List Kind := (lexemesOf expr.parts).map At.value

/-- The same names, all at one place. -/
def Relabeling.toPlace (place : Place) : Relabeling where
  name := id
  place _ := place
  lines _ _ := True
  injective := fun same => same
  external := SymbolTable.name_external_id
  lines_place _ := trivial
  lines_zero := trivial

theorem Relabeling.keepsNames_toPlace (place : Place) : (toPlace place).KeepsNames := fun _ => rfl

theorem Lexeme.map_relabel_toPlace (place : Place) (lexemes : List Lexeme) :
    lexemes.map (relabel (.toPlace place)) =
      (lexemes.map At.value).map fun kind => ⟨kind, place⟩ := by
  rw [List.map_map]
  refine List.map_congr_left fun lexeme _ => ?_
  rw [relabel, lexeme.value.relabel_of_keepsNames (Relabeling.keepsNames_toPlace place)]
  rfl

namespace Expr

/-- At one place, expressions of the same words are the same. -/
theorem relabel_toPlace_eq {expr expr' : Expr} (formed : expr.Formed) (gapless : Gapless expr.parts)
    (formed' : expr'.Formed) (gapless' : Gapless expr'.parts) (same : expr.kinds = expr'.kinds)
    (place : Place) : expr.relabel (.toPlace place) = expr'.relabel (.toPlace place) := by
  let last : Lexeme := ⟨.endOfInput, place⟩
  have read {expr : Expr} (formed : expr.Formed) (gapless : Gapless expr.parts) :
      expr.relabel (.toPlace place) =
        (parse (last.relabel (.toPlace place)) (expr.kinds.map fun kind => ⟨kind, place⟩)).1 := by
    have alone := parse_lexemes last expr [] formed gapless (stops_of_closed closed_nil 0 expr)
    have follows := follows_parse (r := .toPlace place) last (lexemesOf expr.parts)
    rw [List.append_nil] at alone
    rw [alone, Lexeme.map_relabel_toPlace] at follows
    exact (congrArg Prod.fst follows).symm
  rw [read formed gapless, read formed' gapless', same]

/-- Expressions of the same words are accepted with the same types. -/
theorem gives_type_of_kinds {expr expr' : Expr} (formed : expr.Formed) (gapless : Gapless expr.parts)
    (formed' : expr'.Formed) (gapless' : Gapless expr'.parts) (same : expr.kinds = expr'.kinds)
    {table : SymbolTable} {operand : Operand} :
    (expr.type table).Gives operand ↔ (expr'.type table).Gives operand := by
  have keeps := Relabeling.keepsNames_toPlace expr.start
  rw [← expr.gives_type_relabel keeps, ← expr'.gives_type_relabel keeps,
    relabel_toPlace_eq formed gapless formed' gapless' same]

end Expr

end PlainC
