import PlainC.Proofs.Syntax.Parts

set_option autoImplicit false

/-!
Well-formed trees: every operand of an operator binds more tightly than the operator, or as tightly
on the side to which the operator associates, and every `else` belongs to the nearest `if`. Gaps may
stand anywhere.
-/

namespace PlainC

/-- How tightly a binary operator binds: the number of its level, counted from the loosest. The
operators that are not binary are on no level. -/
def Operator.level : Operator → Nat
  | disj => 1
  | conj => 2
  | equal | unequal => 3
  | less | lessEqual | greater | greaterEqual => 4
  | plus | minus => 5
  | star | slash | percent => 6
  | assign | bang | dot => 0

namespace Size

/-- How tightly the outermost operator binds. -/
def tightness : Size → Nat
  | binary op _ _ => op.value.level
  | signed _ _ => 7
  | literal _ | paren _ _ _ | missing _ => 8

def Formed : Size → Prop
  | literal _ | missing _ => True
  | signed sign operand => sign.value ∈ [.minus, .plus] ∧ operand.Formed ∧ 7 ≤ operand.tightness
  | binary op left right =>
    5 ≤ op.value.level ∧ left.Formed ∧ op.value.level ≤ left.tightness ∧
      right.Formed ∧ op.value.level < right.tightness
  | paren _ inner _ => inner.Formed

theorem five_le_tightness {size : Size} (formed : size.Formed) : 5 ≤ size.tightness := by
  cases size with
  | binary => exact formed.1
  | literal | signed | paren | missing => simp [tightness]

end Size

def ArrayPart.Formed : ArrayPart → Prop
  | absent | unsized _ _ => True
  | sized _ size _ => size.Formed

def TypeName.Formed (name : TypeName) : Prop := name.array.Formed

/-- How tightly the outermost operator binds: assignment, the six levels of binary operators, casts,
signs and negation, indices and members, and what has no operator. -/
def Expr.tightness : Expr → Nat
  | .assign _ _ _ => 0
  | .binary op _ _ => op.value.level
  | .cast _ _ _ _ => 7
  | .unary _ _ => 8
  | .element _ _ _ _ | .member _ _ _ => 9
  | .literal _ _ | .reference _ | .call _ _ _ _ | .callEmpty _ _ _ | .paren _ _ _ | .missing _ => 10

mutual

def Expr.Formed : Expr → Prop
  | .literal _ _ | .reference _ | .callEmpty _ _ _ | .missing _ => True
  | .call _ _ args _ => args.Formed
  | .paren _ inner _ => inner.Formed
  | .element array _ index _ => array.Formed ∧ 9 ≤ array.tightness ∧ index.Formed
  | .member record _ _ => record.Formed ∧ 9 ≤ record.tightness
  | .unary op operand => op.value ∈ [.minus, .bang] ∧ operand.Formed ∧ 8 ≤ operand.tightness
  | .cast _ target _ operand => target.Formed ∧ operand.Formed ∧ 7 ≤ operand.tightness
  | .binary op left right =>
    1 ≤ op.value.level ∧ left.Formed ∧ op.value.level ≤ left.tightness ∧
      right.Formed ∧ op.value.level < right.tightness
  | .assign target _ value => target.Formed ∧ 1 ≤ target.tightness ∧ value.Formed

def Args.Formed : Args → Prop
  | .last arg => arg.Formed
  | .more arg _ rest => arg.Formed ∧ rest.Formed

end

def Initializer.Formed : Initializer → Prop
  | value expr => expr.Formed
  | elements _ args _ => args.Formed
  | noElements _ _ => True

def Declarator.Formed (declarator : Declarator) : Prop :=
  declarator.array.Formed ∧ ∀ init ∈ declarator.initializer, init.2.Formed

def VarDecl.Formed (decl : VarDecl) : Prop :=
  ∀ declarator ∈ decl.declarators.toList, declarator.Formed

def ForHeader.Formed (header : ForHeader) : Prop :=
  (∀ expr ∈ header.first, expr.Formed) ∧ (∀ expr ∈ header.condition, expr.Formed) ∧
    ∀ expr ∈ header.step, expr.Formed

/-- Whether an `else` behind the statement would belong to an `if` in it. -/
def Stmt.endsOpen : Stmt → Bool
  | .ifThen _ _ _ => true
  | .ifElse _ _ _ _ otherwise => otherwise.endsOpen
  | .whileLoop _ _ body | .forLoop _ _ body => body.endsOpen
  | _ => false

mutual

def Stmt.Formed : Stmt → Prop
  | .block _ items _ => items.Formed
  | .ifThen _ condition body => condition.expr.Formed ∧ body.Formed
  | .ifElse _ condition body _ otherwise =>
    condition.expr.Formed ∧ body.Formed ∧ body.endsOpen = false ∧ otherwise.Formed
  | .whileLoop _ condition body => condition.expr.Formed ∧ body.Formed
  | .forLoop _ header body => header.Formed ∧ body.Formed
  | .breakLoop _ _ | .empty _ | .missing _ => True
  | .returnValue _ value _ => ∀ expr ∈ value, expr.Formed
  | .expr expr _ => expr.Formed

def Items.Formed : Items → Prop
  | .nil => True
  | .decl decl rest => decl.Formed ∧ rest.Formed
  | .stmt stmt rest => stmt.Formed ∧ rest.Formed

end

def Param.Formed (param : Param) : Prop := param.array.Formed

/-- Where variables are declared, the beginning of a function was tried up to the lexeme behind the
first name. -/
def Decl.Formed : Decl → Prop
  | struct _ _ _ members _ _ => ∀ decl ∈ members, decl.Formed
  | function _ _ _ params _ body =>
    (∀ items ∈ params, ∀ param, .found param ∈ items.toList → param.Formed) ∧
      ∀ block, body = .found block → block.items.Formed
  | vars tried decl =>
    decl.Formed ∧ (Gapless decl.parts → tried = (lexemesOf decl.base.parts).length + 1)
  | missing _ _ => True

end PlainC
