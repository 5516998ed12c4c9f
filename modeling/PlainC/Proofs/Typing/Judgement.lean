import PlainC.Expr.Typing
import PlainC.Proofs.Table.Lookup

set_option autoImplicit false

/-!
The types of expressions as a judgement: one rule for each form of expression, and nothing about
places, messages or the order of checks. A tree with gaps has no type.
-/

namespace PlainC

/-- The value of a size in whole numbers, none of which leaves the range on the way. -/
inductive Size.Evaluates : Size → Int → Prop
  | literal {text value} : Integer.decode text.value = .ok value → Evaluates (literal text) value
  | positive {place operand value} : Evaluates operand value →
      Evaluates (signed ⟨.plus, place⟩ operand) value
  | negative {place operand value} : Evaluates operand value → Integer.inRange (-value) = true →
      Evaluates (signed ⟨.minus, place⟩ operand) (-value)
  | sum {place left right l r} : Evaluates left l → Evaluates right r →
      Integer.inRange (l + r) = true → Evaluates (binary ⟨.plus, place⟩ left right) (l + r)
  | difference {place left right l r} : Evaluates left l → Evaluates right r →
      Integer.inRange (l - r) = true → Evaluates (binary ⟨.minus, place⟩ left right) (l - r)
  | product {place left right l r} : Evaluates left l → Evaluates right r →
      Integer.inRange (l * r) = true → Evaluates (binary ⟨.star, place⟩ left right) (l * r)
  | quotient {place left right l r} : Evaluates left l → Evaluates right r → r ≠ 0 →
      Integer.inRange (l.tdiv r) = true → Evaluates (binary ⟨.slash, place⟩ left right) (l.tdiv r)
  | remainder {place left right l r} : Evaluates left l → Evaluates right r → r ≠ 0 →
      Integer.inRange (l.tdiv r) = true → Evaluates (binary ⟨.percent, place⟩ left right) (l.tmod r)
  | paren {opening inner closing value} : Evaluates inner value →
      Evaluates (paren opening inner (.found closing)) value

/-- The base type that is meant: a struct by its most recent declaration. -/
inductive BaseName.Denotes (table : SymbolTable) : BaseName → Base → Prop
  | int {word} : Denotes table (int word) .int
  | double {word} : Denotes table (double word) .double
  | char {word} : Denotes table (char word) .char
  | struct {word name index symbol} :
      table.LatestAt (fun symbol => symbol.name = name.value ∧ symbol.cls = .struct) index symbol →
      Denotes table (struct word (.found name)) (.struct index)

inductive ArrayPart.Denotes : ArrayPart → Extent → Prop
  | absent : Denotes absent .scalar
  | unsized {opening closing} : Denotes (unsized opening closing) .unsized
  | sized {opening size closing} {value : Int} :
      size.Evaluates value → 0 < value → value ≤ maxExtent →
      Denotes (sized opening size (.found closing)) (.sized value.toNat)

def TypeName.Denotes (table : SymbolTable) (name : TypeName) (ty : Ty) : Prop :=
  name.base.Denotes table ty.base ∧ name.array.Denotes ty.extent

mutual

/-- The type of an expression, and whether it can be assigned to. -/
inductive Expr.HasType (table : SymbolTable) : Expr → Ty → Bool → Prop
  | integer {text value} : Integer.decode text.value = .ok value →
      Expr.HasType table (.literal .integer text) .int false
  | real {text value} : Real.decode text.value = .ok value →
      Expr.HasType table (.literal .real text) .double false
  | character {text value} : Quoted.decodeChar text.value = .ok value →
      Expr.HasType table (.literal .character text) .char false
  | emptyText {text} : Quoted.decodeString text.value = .ok "" →
      Expr.HasType table (.literal .string text) ⟨.char, .unsized⟩ false
  | text {text contents} : Quoted.decodeString text.value = .ok contents →
      0 < contents.utf8ByteSize → contents.utf8ByteSize ≤ maxExtent →
      Expr.HasType table (.literal .string text) ⟨.char, .sized contents.utf8ByteSize⟩ false
  | reference {name symbol} : table.Named name.value symbol → symbol.cls = .var →
      Expr.HasType table (.reference name) symbol.ty true
  | callEmpty {callee opening closing symbol} : table.Named callee.value symbol →
      symbol.cls = .function ∨ symbol.cls = .external → symbol.args = [] →
      Expr.HasType table (.callEmpty callee opening closing) symbol.ty false
  | call {callee opening args closing symbol} : table.Named callee.value symbol →
      symbol.cls = .function ∨ symbol.cls = .external → Args.Fit table symbol.args args →
      Expr.HasType table (.call callee opening args (.found closing)) symbol.ty false
  | paren {opening inner closing ty assignable} : Expr.HasType table inner ty assignable →
      Expr.HasType table (.paren opening inner (.found closing)) ty assignable
  | element {array opening index closing ty assignable assignable'} :
      Expr.HasType table array ty assignable → ty.extent ≠ .scalar →
      Expr.HasType table index .int assignable' →
      Expr.HasType table (.element array opening index (.found closing)) ⟨ty.base, .scalar⟩ true
  | member {record dot name index assignable owner symbol} :
      Expr.HasType table record ⟨.struct index, .scalar⟩ assignable →
      table.structAt? index = some owner → owner.member? name.value = some symbol →
      Expr.HasType table (.member record dot (.found name)) symbol.ty assignable
  | negative {place operand ty assignable} : Expr.HasType table operand ty assignable →
      ty.isArithmetic = true → Expr.HasType table (.unary ⟨.minus, place⟩ operand) ty false
  | negation {place operand ty assignable} : Expr.HasType table operand ty assignable →
      ty.isStruct = false → ty.isVoid = false →
      Expr.HasType table (.unary ⟨.bang, place⟩ operand) .int false
  | cast {opening target closing operand ty source assignable} : target.Denotes table ty →
      Expr.HasType table operand source assignable → ty.accepts source = true →
      Expr.HasType table (.cast opening target (.found closing) operand) ty false
  | logical {op left right l r la ra} : op.value ∈ [Operator.conj, .disj] →
      Expr.HasType table left l la → Expr.HasType table right r ra →
      l.isStruct = false → l.isVoid = false → r.isStruct = false → r.isVoid = false →
      Expr.HasType table (.binary op left right) .int false
  | comparison {op left right l r la ra} :
      op.value ∈ [Operator.equal, .unequal, .less, .lessEqual, .greater, .greaterEqual] →
      Expr.HasType table left l la → Expr.HasType table right r ra →
      l.isStruct = false → l.isVoid = false → l.isArray = false →
      r.isStruct = false → r.isVoid = false → r.isArray = false →
      Expr.HasType table (.binary op left right) .int false
  | arithmetic {op left right l r la ra ty} :
      op.value ∈ [Operator.plus, .minus, .star, .slash, .percent] →
      Expr.HasType table left l la → Expr.HasType table right r ra → l.promote? r = some ty →
      (op.value = .percent → ty.base ≠ .double) →
      Expr.HasType table (.binary op left right) ty false
  | assign {target op value ty source assignable} : Expr.HasType table target ty true →
      Expr.HasType table value source assignable →
      ty.isArray = false → ty.accepts source = true →
      Expr.HasType table (.assign target op value) ty false

/-- There are as many arguments as parameters, and each converts to its parameter. -/
inductive Args.Fit (table : SymbolTable) : List Symbol → Args → Prop
  | last {param : Symbol} {arg ty assignable} : arg.HasType table ty assignable →
      param.ty.accepts ty = true → Args.Fit table [param] (.last arg)
  | more {param : Symbol} {params arg comma rest ty assignable} :
      arg.HasType table ty assignable → param.ty.accepts ty = true →
      Args.Fit table params rest → Args.Fit table (param :: params) (.more arg comma rest)

end

end PlainC
