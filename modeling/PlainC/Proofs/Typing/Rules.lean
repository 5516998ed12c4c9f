import PlainC.Proofs.Checking.Gives
import PlainC.Proofs.Syntax.Formed
import PlainC.Proofs.Typing.Judgement

set_option autoImplicit false

/-!
The rules that the type check applies at one node: what each of them asks of the types of the parts,
and the type that it gives.
-/

namespace PlainC

open Checked

/-! ### Sizes and types -/

namespace Size

theorem gives_atOperator {place : Place} {result : Except Violation Int} {value : Int} :
    (atOperator place result).Gives value ↔ result = .ok value := by
  cases result <;> simp [atOperator, eq_comm]

theorem apply_eq_ok {op : Operator} {left right value : Int} :
    apply op left right = .ok value ↔
      op = .plus ∧ Integer.inRange (left + right) = true ∧ left + right = value ∨
      op = .minus ∧ Integer.inRange (left - right) = true ∧ left - right = value ∨
      op = .star ∧ Integer.inRange (left * right) = true ∧ left * right = value ∨
      op = .slash ∧ right ≠ 0 ∧ Integer.inRange (left.tdiv right) = true ∧
        left.tdiv right = value ∨
      op = .percent ∧ right ≠ 0 ∧ Integer.inRange (left.tdiv right) = true ∧
        left.tmod right = value := by
  have ite_ok {c : Prop} [Decidable c] {x : Except Violation Int} {violation : Violation} :
      (if c then .error violation else x) = .ok value ↔ ¬c ∧ x = .ok value := by
    split <;> simp [*]
  have ite_error {c : Prop} [Decidable c] {number : Int} {violation : Violation} :
      (if c then .ok number else (.error violation : Except Violation Int)) = .ok value ↔
        c ∧ number = value := by
    split <;> simp [*]
  cases op <;> simp [apply, ite_ok, ite_error]

theorem gives_value {size : Size} (formed : size.Formed) {value : Int} :
    size.value.Gives value ↔ size.Evaluates value := by
  induction size generalizing value with
  | literal text =>
    simp only [Size.value, gives_ofLiteral]
    constructor
    · exact .literal
    · intro h
      cases h with
      | literal decoded => exact decoded
  | signed sign operand ih =>
    obtain ⟨sign, place⟩ := sign
    obtain ⟨known, formed, -⟩ := formed
    simp only [Size.value, gives_bind, gives_atOperator, ih formed]
    constructor
    · rintro ⟨number, evaluates, applied⟩
      simp only [List.mem_cons, List.not_mem_nil, or_false] at known
      rcases known with rfl | rfl
      · obtain ⟨fits, rfl⟩ : Integer.inRange (-number) = true ∧ -number = value := by
          simpa [negateIf, apply_eq_ok] using applied
        exact .negative evaluates fits
      · obtain rfl := Except.ok.inj applied
        exact .positive evaluates
    · intro h
      cases h with
      | positive evaluates => exact ⟨_, evaluates, by simp [negateIf]⟩
      | negative evaluates fits => exact ⟨_, evaluates, by simp [negateIf, apply_eq_ok, fits]⟩
  | binary op left right ihLeft ihRight =>
    obtain ⟨op, place⟩ := op
    obtain ⟨-, formedLeft, -, formedRight, -⟩ := formed
    simp only [Size.value, gives_bind, gives_atOperator, ihLeft formedLeft, ihRight formedRight]
    constructor
    · rintro ⟨l, left, r, right, applied⟩
      rcases apply_eq_ok.mp applied with ⟨rfl, fits, rfl⟩ | ⟨rfl, fits, rfl⟩ | ⟨rfl, fits, rfl⟩ |
        ⟨rfl, nonzero, fits, rfl⟩ | ⟨rfl, nonzero, fits, rfl⟩
      · exact .sum left right fits
      · exact .difference left right fits
      · exact .product left right fits
      · exact .quotient left right nonzero fits
      · exact .remainder left right nonzero fits
    · intro h
      cases h with
      | sum left right fits | difference left right fits | product left right fits =>
        exact ⟨_, left, _, right, by simp [apply_eq_ok, fits]⟩
      | quotient left right nonzero fits | remainder left right nonzero fits =>
        exact ⟨_, left, _, right, by simp [apply_eq_ok, nonzero, fits]⟩
  | paren opening inner closing ih =>
    simp only [Size.value, gives_bind, gives_requireMark, gives_pure, ih formed]
    constructor
    · rintro ⟨_, evaluates, _, ⟨place, rfl⟩, rfl⟩
      exact .paren evaluates
    · intro h
      cases h with
      | paren evaluates => exact ⟨value, evaluates, (), ⟨_, rfl⟩, rfl⟩
  | missing instead =>
    simp only [Size.value, gives_violate, false_iff]
    intro h
    cases h

end Size

theorem BaseName.gives_resolve {table : SymbolTable} {name : BaseName} {base : Base} :
    (name.resolve table).Gives base ↔ name.Denotes table base := by
  constructor
  · intro h
    cases name with
    | int | double | char =>
      obtain rfl := gives_pure.mp h
      constructor
    | struct word slot =>
      obtain ⟨name, read, resolved⟩ := gives_bind.mp h
      obtain rfl := gives_require.mp read
      cases found : table.findStruct? name.value with
      | some index =>
        obtain ⟨symbol, latest⟩ := SymbolTable.findStruct?_iff.mp found
        obtain rfl : base = .struct index := by simpa [found] using resolved
        exact .struct latest
      | none => simp [found] at resolved
  · intro h
    cases h with
    | int | double | char => exact gives_pure.mpr rfl
    | struct latest =>
      refine gives_bind.mpr ⟨_, gives_require.mpr rfl, ?_⟩
      rw [SymbolTable.findStruct?_iff.mpr ⟨_, latest⟩]
      exact gives_pure.mpr rfl

theorem ArrayPart.gives_requireClosing {closing : Slot Place} {a : Unit} :
    (requireClosing closing).Gives a ↔ ∃ place, closing = .found place := by
  cases closing <;> simp [requireClosing, gives_ite]

theorem ArrayPart.gives_extent {array : ArrayPart} (formed : array.Formed) {extent : Extent} :
    array.extent.Gives extent ↔ array.Denotes extent := by
  cases array with
  | absent | unsized =>
    simp only [ArrayPart.extent, gives_pure]
    constructor
    · rintro rfl
      constructor
    · intro h
      cases h
      rfl
  | sized opening size closing =>
    simp only [ArrayPart.extent, gives_bind, gives_requireClosing, gives_ite, gives_violate,
      gives_pure, and_false, false_or, Size.gives_value formed]
    constructor
    · rintro ⟨value, evaluates, _, ⟨place, rfl⟩, positive, fits, rfl⟩
      exact .sized evaluates (by omega) (by omega)
    · intro h
      cases h with
      | sized evaluates positive fits =>
        exact ⟨_, evaluates, (), ⟨_, rfl⟩, by omega, by omega, rfl⟩

theorem TypeName.gives_resolve {table : SymbolTable} {name : TypeName} (formed : name.Formed)
    {ty : Ty} : (name.resolve table).Gives ty ↔ name.Denotes table ty := by
  simp only [TypeName.resolve, gives_bind, gives_pure, BaseName.gives_resolve,
    ArrayPart.gives_extent formed, TypeName.Denotes]
  constructor
  · rintro ⟨base, baseDenotes, extent, arrayDenotes, rfl⟩
    exact ⟨baseDenotes, arrayDenotes⟩
  · rintro ⟨baseDenotes, arrayDenotes⟩
    exact ⟨_, baseDenotes, _, arrayDenotes, rfl⟩

/-! ### Operators -/

theorem Operand.exists {p : Operand → Prop} :
    (∃ operand, p operand) ↔ ∃ ty assignable, p ⟨ty, assignable⟩ :=
  ⟨fun ⟨operand, h⟩ => ⟨operand.ty, operand.assignable, h⟩, fun ⟨_, _, h⟩ => ⟨_, h⟩⟩

namespace Expr

variable {table : SymbolTable} {operand : Operand}

theorem gives_invalidOperand {op : At Operator} {ty : Ty} :
    ¬(invalidOperand table op ty).Gives operand :=
  gives_violate

theorem gives_typeOfTest {test : Ty → Bool} {op : At Operator} {left right : Ty} :
    (typeOfTest table test op left right).Gives operand ↔
      test left = true ∧ test right = true ∧ operand = ⟨.int, false⟩ := by
  simp [typeOfTest, gives_ite, gives_invalidOperand, Operand.computed]

theorem gives_typeOfArithmetic {op : At Operator} {left right : Ty} :
    (typeOfArithmetic table op left right).Gives operand ↔ ∃ ty, left.promote? right = some ty ∧
      (op.value = .percent → ty.base ≠ .double) ∧ operand = ⟨ty, false⟩ := by
  unfold typeOfArithmetic
  cases promoted : left.promote? right with
  | none => simp [gives_invalidOperand]
  | some ty => simp [gives_ite, Operand.computed]

theorem gives_typeOfBinary {op : At Operator} (binary : 1 ≤ op.value.level) {left right : Ty} :
    (typeOfBinary table op left right).Gives operand ↔
      op.value ∈ [.conj, .disj] ∧ left.isTestable = true ∧ right.isTestable = true ∧
        operand = ⟨.int, false⟩ ∨
      op.value ∈ [.equal, .unequal, .less, .lessEqual, .greater, .greaterEqual] ∧
        left.isComparable = true ∧ right.isComparable = true ∧ operand = ⟨.int, false⟩ ∨
      op.value ∈ [.plus, .minus, .star, .slash, .percent] ∧ ∃ ty, left.promote? right = some ty ∧
        (op.value = .percent → ty.base ≠ .double) ∧ operand = ⟨ty, false⟩ := by
  obtain ⟨op, place⟩ := op
  cases op with
  | assign | bang | dot => simp [Operator.level] at binary
  | conj | disj => simp [typeOfBinary, gives_typeOfTest]
  | equal | unequal | less | lessEqual | greater | greaterEqual =>
    simp [typeOfBinary, gives_typeOfTest]
  | plus | minus | star | slash | percent => simp [typeOfBinary, gives_typeOfArithmetic]

theorem gives_typeOfUnary {op : At Operator} {ty : Ty} :
    (typeOfUnary table op ty).Gives operand ↔
      op.value = .bang ∧ ty.isTestable = true ∧ operand = ⟨.int, false⟩ ∨
      op.value ≠ .bang ∧ ty.isArithmetic = true ∧ operand = ⟨ty, false⟩ := by
  simp [typeOfUnary, gives_ite, gives_invalidOperand, Operand.computed]

theorem gives_typeOfAssign {start op : Place} {target : Operand} {value : Ty} :
    (typeOfAssign table start op target value).Gives operand ↔ target.assignable = true ∧
      target.ty.isArray = false ∧ target.ty.accepts value = true ∧ operand = ⟨target.ty, false⟩ := by
  simp [typeOfAssign, gives_ite, Operand.computed]

theorem gives_typeOfCast {start : Place} {target value : Ty} :
    (typeOfCast table start target value).Gives operand ↔
      target.accepts value = true ∧ operand = ⟨target, false⟩ := by
  simp [typeOfCast, gives_ite, Operand.computed]

theorem gives_requireArray {opening : Place} {ty : Ty} {a : Unit} :
    (requireArray table opening ty).Gives a ↔ ty.extent ≠ .scalar := by
  simp [requireArray, gives_ite, Ty.isArray]

theorem gives_requireIndex {start : Place} {ty : Ty} {a : Unit} :
    (requireIndex table start ty).Gives a ↔ ty = .int := by
  simp [requireIndex, gives_ite]

theorem gives_typeOfMember {dot : Place} {record : Operand} {member : Name} :
    (typeOfMember table dot record member).Gives operand ↔ ∃ index owner symbol,
      record.ty = ⟨.struct index, .scalar⟩ ∧ table.structAt? index = some owner ∧
      owner.member? member.value = some symbol ∧ operand = ⟨symbol.ty, record.assignable⟩ := by
  obtain ⟨⟨base, extent⟩, assignable⟩ := record
  by_cases scalar : extent = .scalar
  · subst scalar
    cases base with
    | int | double | char | void =>
      simp [typeOfMember, Ty.structIndex?, Ty.isArray]
    | struct index =>
      cases declared : table.structAt? index with
      | none => simp [typeOfMember, Ty.structIndex?, Ty.isArray, declared]
      | some owner =>
        cases found : owner.member? member.value <;>
          simp [typeOfMember, Ty.structIndex?, Ty.isArray, declared, found]
  · simp [typeOfMember, Ty.isArray, scalar]

/-! ### Names and literals -/

theorem gives_lookUp {name : Name} {symbol : Symbol} :
    (lookUp table name).Gives symbol ↔ table.Named name.value symbol := by
  rw [← SymbolTable.find?_iff]
  unfold lookUp
  cases found : table.find? name.value <;> simp [eq_comm]

theorem gives_typeOfReference {name : Name} :
    (typeOfReference table name).Gives operand ↔ ∃ symbol, table.Named name.value symbol ∧
      symbol.cls = .var ∧ operand = ⟨symbol.ty, true⟩ := by
  simp only [typeOfReference, gives_bind, gives_lookUp]
  refine exists_congr fun symbol => and_congr_right fun _ => ?_
  cases symbol.cls <;> simp [Operand.stored]

theorem gives_requireFunction {name : Name} {symbol : Symbol} :
    (requireFunction table name).Gives symbol ↔ table.Named name.value symbol ∧
      (symbol.cls = .function ∨ symbol.cls = .external) := by
  simp only [requireFunction, gives_bind, gives_lookUp, gives_ite, gives_pure, gives_violate,
    and_false, or_false, Symbol.isCallable, Bool.or_eq_true, decide_eq_true_eq]
  constructor
  · rintro ⟨_, named, callable, rfl⟩
    exact ⟨named, callable⟩
  · rintro ⟨named, callable⟩
    exact ⟨symbol, named, callable, rfl⟩

theorem gives_requireArgument {callee : Name} {params : List Symbol} {position : Nat}
    {start : Place} {ty : Ty} {a : Unit} :
    (requireArgument table callee params position start ty).Gives a ↔
      ∃ param, params[position]? = some param ∧ param.ty.accepts ty = true := by
  unfold requireArgument
  cases params[position]? <;> simp [gives_ite]

theorem gives_typeOfCall {callee : Name} {symbol : Symbol} {given : Nat} :
    (typeOfCall callee symbol given).Gives operand ↔
      symbol.args.length ≤ given ∧ operand = ⟨symbol.ty, false⟩ := by
  simp [typeOfCall, gives_ite, Operand.computed]

theorem gives_typeOfText {place : Place} {bytes : Nat} :
    (typeOfText place bytes).Gives operand ↔ bytes ≤ maxExtent ∧
      operand = ⟨⟨.char, if bytes = 0 then .unsized else .sized bytes⟩, false⟩ := by
  simp [typeOfText, gives_ite, Operand.computed]

end Expr

end PlainC
