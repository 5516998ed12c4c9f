import PlainC.Proofs.Checking.Gaps
import PlainC.Proofs.Reading.Expr.Lexemes
import PlainC.Proofs.Typing.Exact

set_option autoImplicit false

/-!
The analysis of an expression against a reference in two passes: a tree of the grammar that the
lexemes are written from, and then a type for the tree by the judgement.
-/

namespace PlainC

namespace Expr

/-- The lexemes are those of the expression, a tree without gaps, and `rest`, which does not go on
with it. -/
structure Fronts (expr : Expr) (ts rest : List Lexeme) : Prop where
  formed : expr.Formed
  gapless : Gapless expr.parts
  written : ts = lexemesOf expr.parts ++ rest
  stops : expr.Stops 0 rest

/-- The tree is the one that is read. -/
theorem Fronts.parse_eq {expr : Expr} {ts rest : List Lexeme} (h : expr.Fronts ts rest)
    (last : Lexeme) : Expr.parse last ts = (expr, rest) := by
  rw [h.written]
  exact parse_lexemes last expr rest h.formed h.gapless h.stops

theorem parse_fronts (last : Lexeme) (ts : List Lexeme) :
    ∃ expr rest, Expr.parse last ts = (expr, rest) ∧
      (Gapless expr.parts → expr.Fronts ts rest) := by
  obtain ⟨expr, rest, h, spans, formed, stops⟩ := parse_reader last ts
  exact ⟨expr, rest, h, fun gapless => ⟨formed, gapless, spans.eq_append, stops⟩⟩

theorem HasType.unique {table : SymbolTable} {expr : Expr} (formed : expr.Formed) {ty ty' : Ty}
    {assignable assignable' : Bool} (h : expr.HasType table ty assignable)
    (h' : expr.HasType table ty' assignable') : ty = ty' ∧ assignable = assignable' := by
  have given := (expr.gives_type table formed).mpr h
  have given' := (expr.gives_type table formed).mpr h'
  exact Operand.mk.inj (given.unique given')

/-- Lexemes begin with at most one tree that they do not go on with, and it has at most one type. An
expression is accepted with a type, and up to some rest of the lexemes, just if they begin with a
tree of that type. A tree that has no type is refused, and not for its form. -/
theorem type_parse_iff (table : SymbolTable) (last : Lexeme) (ts : List Lexeme) :
    (∀ operand rest,
      ((Expr.parse last ts).1.type table).result = .ok operand ∧ (Expr.parse last ts).2 = rest ↔
        ∃ expr : Expr, expr.Fronts ts rest ∧
          expr.HasType table operand.ty operand.assignable) ∧
    (∀ (expr expr' : Expr) (rest rest' : List Lexeme),
      expr.Fronts ts rest → expr'.Fronts ts rest' → expr = expr' ∧ rest = rest') ∧
    (∀ (expr : Expr) (rest : List Lexeme) (ty ty' : Ty) (assignable assignable' : Bool),
      expr.Fronts ts rest → expr.HasType table ty assignable →
        expr.HasType table ty' assignable' → ty = ty' ∧ assignable = assignable') ∧
    ∀ (expr : Expr) (rest : List Lexeme), expr.Fronts ts rest →
      (¬∃ ty assignable, expr.HasType table ty assignable) →
        ∃ fault, ((Expr.parse last ts).1.type table).result = .error fault ∧
          ¬fault.cause.IsSyntactic := by
  refine ⟨fun operand rest => ⟨?_, ?_⟩, ?_, ?_, ?_⟩
  · obtain ⟨expr, rest, h, gapless_fronts⟩ := parse_fronts last ts
    rw [h]
    rintro ⟨given, rfl⟩
    have fronts := gapless_fronts ((Expr.reports_type table expr).gapless given)
    have typed : expr.HasType table operand.ty operand.assignable :=
      (expr.gives_type table fronts.formed).mp given
    exact ⟨expr, fronts, typed⟩
  · rintro ⟨expr, fronts, typed⟩
    rw [fronts.parse_eq last]
    exact ⟨(expr.gives_type table fronts.formed).mpr typed, rfl⟩
  · intro expr expr' rest rest' fronts fronts'
    exact Prod.mk.inj ((fronts.parse_eq last).symm.trans (fronts'.parse_eq last))
  · intro expr rest ty ty' assignable assignable' fronts typed typed'
    exact typed.unique fronts.formed typed'
  · intro expr rest fronts untyped
    rw [fronts.parse_eq last]
    have reports := Expr.reports_type table expr
    cases checked : (expr.type table).result with
    | ok operand =>
      have typed : expr.HasType table operand.ty operand.assignable :=
        (expr.gives_type table fronts.formed).mp checked
      exact absurd ⟨_, _, typed⟩ untyped
    | error fault =>
      refine ⟨fault, rfl, fun syntactic => ?_⟩
      obtain ⟨wanted, lexeme, gap, -⟩ := reports.firstGap checked syntactic
      rw [fronts.gapless] at gap
      cases gap

/-- In front of a semicolon, `a = 2` is read as a tree whose type is that of the variable. -/
theorem type_parse_iff_assign : ∃ expr : Expr,
    expr.Fronts
      (Lexeme.number 0 [⟨.identifier "a", ⟨0, 1⟩, 1⟩, ⟨.operator .assign, ⟨2, 3⟩, 1⟩,
        ⟨.literal .integer "2", ⟨4, 5⟩, 1⟩, ⟨.delimiter .semicolon, ⟨5, 6⟩, 1⟩])
      (Lexeme.number 3 [⟨.delimiter .semicolon, ⟨5, 6⟩, 1⟩]) ∧
    expr.HasType ⟨["a"], [⟨"a", .var, .int, .global, 0, 1, [], []⟩]⟩ .int false :=
  ((type_parse_iff _ ⟨.endOfInput, ⟨4, ⟨6, 6⟩, 1⟩⟩ _).1 (.computed .int) _).mp ⟨rfl, rfl⟩

end Expr

end PlainC
