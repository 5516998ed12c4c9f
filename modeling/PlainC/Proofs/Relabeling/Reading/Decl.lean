import PlainC.Proofs.Reading.Decl
import PlainC.Proofs.Relabeling.Reading.Expr

set_option autoImplicit false

/-!
Reading relabeled lexemes as declarations and statements.
-/

namespace PlainC

open Parse

variable {r : Relabeling}

/-! ### Variables -/

theorem Initializer.follows_parse :
    Follows r (Initializer.relabel r) Initializer.parse Initializer.parse := by
  apply (follows_mark? .leftBrace).bind
  rintro (_ | opening)
  · exact Expr.follows_parse.into fun _ => rfl
  · apply (follows_mark? .rightBrace).bind
    rintro (_ | closing)
    · apply (Expr.follows_parseArgs Expr.follows_parse).bind
      intro elements
      exact (follows_mark .rightBrace).into fun _ => rfl
    · exact follows_pure rfl

theorem Declarator.follows_parse :
    Follows r (Declarator.relabel r) Declarator.parse Declarator.parse := by
  apply follows_name.bind
  intro name
  apply ArrayPart.follows_parse.bind
  intro array
  apply (follows_operatorToken? .assign).bind
  rintro (_ | op)
  · exact follows_pure rfl
  · exact Initializer.follows_parse.into fun _ => rfl

namespace VarDecl

theorem follows_parseBehind (base : BaseName) :
    Follows r (relabel r) (parseBehind base) (parseBehind (base.relabel r)) := by
  apply (Separated.follows_parse Declarator.follows_parse).bind
  intro declarators
  exact (follows_mark .semicolon).into fun _ => rfl

theorem follows_parse? : Follows r (Option.map (relabel r)) parse? parse? := by
  apply BaseName.follows_parse?.bind
  rintro (_ | base)
  · exact follows_pure rfl
  · exact (follows_parseBehind base).into fun _ => rfl

theorem follows_parseAll : Follows r (List.map (relabel r)) parseAll parseAll := by
  apply follows_bounded
  intro fuel
  induction fuel with
  | zero => exact follows_pure rfl
  | succ fuel ih =>
    apply follows_parse?.bind
    rintro (_ | decl)
    · exact follows_pure rfl
    · exact ih.into fun _ => rfl

end VarDecl

/-! ### Statements -/

theorem Condition.follows_parse :
    Follows r (Condition.relabel r) Condition.parse Condition.parse := by
  apply (follows_mark .leftParen).bind
  intro opening
  apply Expr.follows_parse.bind
  intro expr
  exact (follows_mark .rightParen).into fun _ => rfl

theorem Expr.follows_parseUnless (mark : Delimiter) :
    Follows r (Option.map (Expr.relabel r)) (Expr.parseUnless mark) (Expr.parseUnless mark) := by
  apply (follows_sees (by simp)).bind
  rintro (_ | _)
  · exact Expr.follows_parse.into fun _ => rfl
  · exact follows_pure rfl

theorem ForHeader.follows_parse :
    Follows r (ForHeader.relabel r) ForHeader.parse ForHeader.parse := by
  apply (follows_mark .leftParen).bind
  intro opening
  apply (Expr.follows_parseUnless .semicolon).bind
  intro first
  apply (follows_mark .semicolon).bind
  intro firstSemicolon
  apply (Expr.follows_parseUnless .semicolon).bind
  intro condition
  apply (follows_mark .semicolon).bind
  intro secondSemicolon
  apply (Expr.follows_parseUnless .rightParen).bind
  intro step
  exact (follows_mark .rightParen).into fun _ => rfl

section

variable {nested : Parse Stmt} (same : Follows r (Stmt.relabel r) nested nested)

include same

theorem Items.follows_parseWithin (fuel : Nat) :
    Follows r (Items.relabel r) (Items.parseWithin nested fuel) (Items.parseWithin nested fuel) := by
  induction fuel with
  | zero => exact follows_pure rfl
  | succ fuel ih =>
    apply (follows_sees (by simp)).bind
    rintro (_ | _)
    · apply follows_atEnd.bind
      rintro (_ | _)
      · apply VarDecl.follows_parse?.bind
        rintro (_ | decl)
        · apply same.bind
          rintro (_ | _ | _ | _ | _ | _ | _ | _ | _ | _)
          case missing => exact follows_pure rfl
          all_goals exact ih.into fun _ => rfl
        · exact ih.into fun _ => rfl
      · exact follows_pure rfl
    · exact follows_pure rfl

theorem Block.follows_parse? :
    Follows r (Option.map (Block.relabel r)) (Block.parse? nested) (Block.parse? nested) := by
  apply (follows_mark? .leftBrace).bind
  rintro (_ | opening)
  · exact follows_pure rfl
  · apply (follows_bounded (Items.follows_parseWithin same)).bind
    intro items
    exact (follows_mark .rightBrace).into fun _ => rfl

namespace Stmt

theorem follows_parseIf (word : Place) :
    Follows r (relabel r) (parseIf nested word) (parseIf nested (r.place word)) := by
  apply Condition.follows_parse.bind
  intro condition
  apply same.bind
  intro body
  apply (follows_keyword? .elseKw).bind
  rintro (_ | elseWord)
  · exact follows_pure rfl
  · exact same.into fun _ => rfl

theorem follows_parseFor (word : Place) :
    Follows r (relabel r) (parseFor nested word) (parseFor nested (r.place word)) := by
  apply ForHeader.follows_parse.bind
  intro header
  exact same.into fun _ => rfl

theorem follows_parseWhile (word : Place) :
    Follows r (relabel r) (parseWhile nested word) (parseWhile nested (r.place word)) := by
  apply Condition.follows_parse.bind
  intro condition
  exact same.into fun _ => rfl

omit same in
theorem follows_parseReturn (word : Place) :
    Follows r (relabel r) (parseReturn word) (parseReturn (r.place word)) := by
  apply (Expr.follows_parseUnless .semicolon).bind
  intro value
  exact (follows_mark .semicolon).into fun _ => rfl

omit same in
theorem follows_parseExpr : Follows r (relabel r) parseExpr parseExpr := by
  apply follows_peek.bind
  intro next
  simp only [Lexeme.relabel, Expr.canBegin_relabel]
  split
  · apply Expr.follows_parse.bind
    intro value
    exact (follows_mark .semicolon).into fun _ => rfl
  · exact follows_pure rfl

end Stmt

end

theorem Stmt.follows_parse : Follows r (Stmt.relabel r) Stmt.parse Stmt.parse := by
  apply follows_bounded
  intro fuel
  induction fuel with
  | zero => exact follows_peek.into fun _ => rfl
  | succ fuel ih =>
    apply (Block.follows_parse? ih).bind
    rintro (_ | block)
    · apply (follows_keyword? .ifKw).bind
      rintro (_ | word)
      · apply (follows_keyword? .whileKw).bind
        rintro (_ | word)
        · apply (follows_keyword? .forKw).bind
          rintro (_ | word)
          · apply (follows_keyword? .breakKw).bind
            rintro (_ | word)
            · apply (follows_keyword? .returnKw).bind
              rintro (_ | word)
              · apply (follows_mark? .semicolon).bind
                rintro (_ | semicolon)
                · exact follows_parseExpr
                · exact follows_pure rfl
              · exact follows_parseReturn word
            · exact (follows_mark .semicolon).into fun _ => rfl
          · exact follows_parseFor ih word
        · exact follows_parseWhile ih word
      · exact follows_parseIf ih word
    · exact follows_pure rfl

/-! ### Declarations -/

theorem Param.follows_parse :
    Follows r (Slot.relabel r (Param.relabel r)) Param.parse Param.parse := by
  apply BaseName.follows_parse?.bind
  rintro (_ | base)
  · exact follows_missing
  · apply follows_name.bind
    intro name
    exact ArrayPart.follows_parse.into fun _ => rfl

theorem ResultType.follows_parse? :
    Follows r (Option.map (ResultType.relabel r)) ResultType.parse? ResultType.parse? := by
  apply (follows_keyword? .voidKw).bind
  rintro (_ | word)
  · apply BaseName.follows_parse?.bind
    rintro (_ | base)
    · exact follows_pure rfl
    · apply (follows_operatorToken? .star).bind
      rintro (_ | star)
      · exact follows_pure rfl
      · exact follows_pure rfl
  · exact follows_pure rfl

namespace Decl

theorem follows_structHead? :
    Follows r (Option.map fun (word, name, opening) =>
        (r.place word, Name.rename r name, r.place opening)) structHead? structHead? := by
  intro last ts
  rw [structHead?_eq, structHead?_eq, follows_keyword? .structKw last ts]
  rcases keyword? .structKw last ts with ⟨_ | word, behind⟩
  · rfl
  simp only [Option.map_some, follows_name? last behind]
  rcases name? last behind with ⟨_ | name, behind⟩
  · rfl
  simp only [Option.map_some, follows_mark? .leftBrace last behind]
  rcases mark? .leftBrace last behind with ⟨_ | opening, rest⟩
  · rfl
  · rfl

theorem follows_parseStruct (word : Place) (name : Name) (opening : Place) :
    Follows r (relabel r) (parseStruct word name opening)
      (parseStruct (r.place word) (name.rename r) (r.place opening)) := by
  apply VarDecl.follows_parseAll.bind
  intro members
  apply (follows_mark .rightBrace).bind
  intro closing
  exact (follows_mark .semicolon).into fun _ => rfl

theorem follows_functionHead :
    Follows r (Except.map fun (result, name, opening) =>
        (ResultType.relabel r result, Name.rename r name, r.place opening))
      functionHead functionHead := by
  have start : Follows r (Option.map fun (result, name, opening) =>
      (ResultType.relabel r result, Name.rename r name, r.place opening))
        functionStart? functionStart? := by
    apply ResultType.follows_parse?.bind
    rintro (_ | result)
    · exact follows_pure rfl
    · apply follows_name?.bind
      rintro (_ | name)
      · exact follows_pure rfl
      · apply (follows_mark? .leftParen).bind
        rintro (_ | opening)
        · exact follows_pure rfl
        · exact follows_pure rfl
  intro last ts
  rw [functionHead_apply, functionHead_apply, start last ts]
  rcases functionStart? last ts with ⟨_ | head, rest⟩
  · simp [Except.map]
  · rfl

theorem follows_parseBehindParams (result : ResultType) (name : Name) (opening : Place)
    (params : Option (Separated (Slot Param))) :
    Follows r (relabel r) (parseBehindParams result name opening params)
      (parseBehindParams (result.relabel r) (name.rename r) (r.place opening)
        (params.map (Separated.relabel r (Slot.relabel r (Param.relabel r))))) := by
  apply (follows_mark .rightParen).bind
  intro closing
  apply (Block.follows_parse? Stmt.follows_parse).bind
  rintro (_ | block)
  · exact follows_missing.into fun _ => rfl
  · exact follows_pure rfl

theorem follows_parseFunction (result : ResultType) (name : Name) (opening : Place) :
    Follows r (relabel r) (parseFunction result name opening)
      (parseFunction (result.relabel r) (name.rename r) (r.place opening)) := by
  intro last ts
  have head : ((ts.map (Lexeme.relabel r)).headD (Lexeme.relabel r last)).value =
      .delimiter .rightParen ↔ (ts.headD last).value = .delimiter .rightParen := by
    rw [Lexeme.headD_map_relabel]
    exact Kind.relabel_eq_iff (by simp) _
  by_cases seen : (ts.headD last).value = .delimiter .rightParen
  · rw [parseFunction_of_seen _ _ _ seen, parseFunction_of_seen _ _ _ (head.mpr seen)]
    exact follows_parseBehindParams result name opening none last ts
  · rw [parseFunction_of_not_seen _ _ _ seen, parseFunction_of_not_seen _ _ _ (mt head.mp seen),
      Separated.follows_parse Param.follows_parse last ts]
    exact follows_parseBehindParams result name opening (some _) last _

theorem follows_parse : Follows r (relabel r) parse parse := by
  apply follows_structHead?.bind
  rintro (_ | ⟨word, name, opening⟩)
  · apply follows_functionHead.bind
    rintro (tried | ⟨result, name, opening⟩)
    · apply VarDecl.follows_parse?.bind
      rintro (_ | decl)
      · exact follows_peek.into fun _ => rfl
      · exact follows_pure rfl
    · exact follows_parseFunction result name opening
  · exact follows_parseStruct word name opening

/-- Relabeled lexemes are read as relabeled declarations. -/
theorem follows_parseAll : Follows r (List.map (relabel r)) parseAll parseAll := by
  apply follows_bounded
  intro fuel
  induction fuel with
  | zero => exact follows_pure rfl
  | succ fuel ih =>
    apply follows_atEnd.bind
    rintro (_ | _)
    · apply follows_parse.bind
      rintro (_ | _ | _ | _)
      case missing => exact follows_pure rfl
      all_goals exact ih.into fun _ => rfl
    · exact follows_pure rfl

end Decl

end PlainC
