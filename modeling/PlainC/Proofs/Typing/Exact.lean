import PlainC.Proofs.Typing.Rules

set_option autoImplicit false

/-!
The type check finds exactly the types that the judgement allows, so an expression has at most one.
-/

namespace PlainC

open Checked PlainC.Expr

theorem Ty.isTestable_iff {ty : Ty} :
    ty.isTestable = true ↔ ty.isStruct = false ∧ ty.isVoid = false := by
  simp [isTestable]

theorem Ty.isComparable_iff {ty : Ty} : ty.isComparable = true ↔
    ty.isStruct = false ∧ ty.isVoid = false ∧ ty.isArray = false := by
  simp [isComparable, isTestable, and_assoc]

theorem drop_eq_cons_iff {α : Type} {as rest : List α} {a : α} {n : Nat} :
    as.drop n = a :: rest ↔ as[n]? = some a ∧ as.drop (n + 1) = rest := by
  induction as generalizing n with
  | nil => simp
  | cons b as ih => cases n <;> simp [ih]

section

variable {table : SymbolTable} {ty : Ty} {assignable : Bool}

theorem Expr.gives_typeOfLiteral {form : LiteralForm} {text : Name} :
    (typeOfLiteral form text).Gives ⟨ty, assignable⟩ ↔
      (Expr.literal form text).HasType table ty assignable := by
  cases form with
  | integer | real | character =>
    simp only [typeOfLiteral, gives_bind, gives_ofLiteral, gives_pure, Operand.computed,
      Operand.mk.injEq]
    constructor
    · rintro ⟨value, decoded, rfl, rfl⟩
      constructor
      exact decoded
    · intro h
      cases h
      exact ⟨_, ‹_›, rfl, rfl⟩
  | string =>
    simp only [typeOfLiteral, gives_bind, gives_ofLiteral, gives_typeOfText, Operand.mk.injEq]
    constructor
    · rintro ⟨contents, decoded, fits, rfl, rfl⟩
      by_cases empty : contents.utf8ByteSize = 0
      · obtain rfl := String.utf8ByteSize_eq_zero_iff.mp empty
        exact .emptyText decoded
      · rw [if_neg empty]
        exact .text decoded (Nat.pos_of_ne_zero empty) fits
    · intro h
      cases h with
      | emptyText decoded => exact ⟨"", decoded, Nat.zero_le _, by simp⟩
      | text decoded positive fits =>
        exact ⟨_, decoded, fits, by rw [if_neg (Nat.ne_of_gt positive)], rfl⟩

mutual

theorem Expr.gives_type (table : SymbolTable) : ∀ (expr : Expr), expr.Formed →
    ∀ {ty : Ty} {assignable : Bool},
      (expr.type table).Gives ⟨ty, assignable⟩ ↔ expr.HasType table ty assignable
  | .literal form text, _, ty, assignable => gives_typeOfLiteral
  | .reference name, _, ty, assignable => by
    simp only [Expr.type, gives_typeOfReference, Operand.mk.injEq]
    constructor
    · rintro ⟨symbol, named, var, rfl, rfl⟩
      exact .reference named var
    · intro h
      cases h with
      | reference named var => exact ⟨_, named, var, rfl, rfl⟩
  | .callEmpty callee opening closing, _, ty, assignable => by
    simp only [Expr.type, gives_bind, gives_requireFunction, gives_typeOfCall, Operand.mk.injEq]
    constructor
    · rintro ⟨symbol, ⟨named, callable⟩, count, rfl, rfl⟩
      exact .callEmpty named callable (List.eq_nil_of_length_eq_zero (Nat.le_zero.mp count))
    · intro h
      cases h with
      | callEmpty named callable none =>
        exact ⟨_, ⟨named, callable⟩, by simp [none], rfl, rfl⟩
  | .call callee opening args closing, formed, ty, assignable => by
    simp only [Expr.type, gives_bind, gives_requireFunction, gives_requireMark, gives_typeOfCall,
      Operand.mk.injEq]
    constructor
    · rintro ⟨symbol, ⟨named, callable⟩, _, checked, _, ⟨place, rfl⟩, count, rfl, rfl⟩
      refine .call named callable ?_
      exact (args.gives_check table formed 0).mp ⟨checked, by simpa using count⟩
    · intro h
      cases h with
      | call named callable fit =>
        obtain ⟨checked, count⟩ := (args.gives_check table formed 0).mpr fit
        exact ⟨_, ⟨named, callable⟩, (), checked, (), ⟨_, rfl⟩, by simpa using count, rfl, rfl⟩
  | .paren opening inner closing, formed, ty, assignable => by
    -- the cast that is tried first leaves only an event behind, not a type
    simp only [Expr.type, gives_bind, Checked.backtracked, gives_write, gives_requireMark,
      gives_pure, Operand.exists, Operand.mk.injEq, inner.gives_type table formed]
    constructor
    · rintro ⟨_, _, ty, assignable, typed, _, ⟨place, rfl⟩, rfl, rfl⟩
      exact .paren typed
    · intro h
      cases h with
      | paren typed => exact ⟨(), trivial, _, _, typed, (), ⟨_, rfl⟩, rfl, rfl⟩
  | .element array opening index closing, formed, ty, assignable => by
    obtain ⟨formedArray, -, formedIndex⟩ := formed
    simp only [Expr.type, gives_bind, gives_requireArray, gives_requireIndex, gives_requireMark,
      gives_pure, Operand.exists, Operand.stored, Ty.element, Operand.mk.injEq,
      array.gives_type table formedArray, index.gives_type table formedIndex]
    constructor
    · rintro ⟨_, _, array, _, isArray, _, _, index, _, rfl, _, ⟨place, rfl⟩, rfl, rfl⟩
      exact .element array isArray index
    · intro h
      cases h with
      | element array isArray index =>
        exact ⟨_, _, array, (), isArray, _, _, index, (), rfl, (), ⟨_, rfl⟩, rfl, rfl⟩
  | .member record dot slot, formed, ty, assignable => by
    simp only [Expr.type, gives_bind, gives_require, gives_typeOfMember, Operand.exists,
      Operand.mk.injEq, record.gives_type table formed.1]
    constructor
    · rintro ⟨_, _, record, name, rfl, index, owner, symbol, rfl, declared, found, rfl, rfl⟩
      exact .member record declared found
    · intro h
      cases h with
      | member record declared found =>
        exact ⟨_, _, record, _, rfl, _, _, _, rfl, declared, found, rfl, rfl⟩
  | .unary op operand, formed, ty, assignable => by
    obtain ⟨op, place⟩ := op
    obtain ⟨known, formed, -⟩ := formed
    simp only [Expr.type, gives_bind, gives_ite, gives_withoutFirst, ← or_and_right,
      Decidable.em, true_and, gives_typeOfUnary, Operand.exists, Operand.mk.injEq,
      Ty.isTestable_iff, operand.gives_type table formed]
    constructor
    · rintro ⟨source, _, typed, ⟨rfl, ⟨struct, void⟩, rfl, rfl⟩ | ⟨other, arithmetic, rfl, rfl⟩⟩
      · exact .negation typed struct void
      · obtain rfl : op = .minus := by simpa [other] using known
        exact .negative typed arithmetic
    · intro h
      cases h with
      | negation typed struct void =>
        exact ⟨_, _, typed, .inl ⟨rfl, ⟨struct, void⟩, rfl, rfl⟩⟩
      | negative typed arithmetic =>
        exact ⟨_, _, typed, .inr ⟨nofun, arithmetic, rfl, rfl⟩⟩
  | .cast opening target closing operand, formed, ty, assignable => by
    obtain ⟨formedTarget, formed, -⟩ := formed
    simp only [Expr.type, gives_bind, TypeName.gives_resolve formedTarget, gives_requireMark,
      gives_typeOfCast, Operand.exists, Operand.mk.injEq, operand.gives_type table formed]
    constructor
    · rintro ⟨_, denotes, _, ⟨place, rfl⟩, source, _, typed, accepts, rfl, rfl⟩
      exact .cast denotes typed accepts
    · intro h
      cases h with
      | cast denotes typed accepts =>
        exact ⟨_, denotes, (), ⟨_, rfl⟩, _, _, typed, accepts, rfl, rfl⟩
  | .binary op left right, formed, ty, assignable => by
    obtain ⟨binary, formedLeft, -, formedRight, -⟩ := formed
    simp only [Expr.type, gives_bind, gives_typeOfBinary binary, Operand.exists,
      Operand.mk.injEq, Ty.isTestable_iff, Ty.isComparable_iff,
      left.gives_type table formedLeft, right.gives_type table formedRight]
    constructor
    · rintro ⟨l, _, left, r, _, right, ⟨mem, testable, testable', rfl, rfl⟩ |
        ⟨mem, comparable, comparable', rfl, rfl⟩ | ⟨mem, _, promoted, remainder, rfl, rfl⟩⟩
      · exact .logical mem left right testable.1 testable.2 testable'.1 testable'.2
      · obtain ⟨struct, void, array⟩ := comparable
        obtain ⟨struct', void', array'⟩ := comparable'
        exact .comparison mem left right struct void array struct' void' array'
      · exact .arithmetic mem left right promoted remainder
    · intro h
      cases h with
      | logical mem left right struct void struct' void' =>
        exact ⟨_, _, left, _, _, right,
          .inl ⟨mem, ⟨struct, void⟩, ⟨struct', void'⟩, rfl, rfl⟩⟩
      | comparison mem left right struct void array struct' void' array' =>
        exact ⟨_, _, left, _, _, right,
          .inr (.inl ⟨mem, ⟨struct, void, array⟩, ⟨struct', void', array'⟩, rfl, rfl⟩)⟩
      | arithmetic mem left right promoted remainder =>
        exact ⟨_, _, left, _, _, right, .inr (.inr ⟨mem, _, promoted, remainder, rfl, rfl⟩)⟩
  | .assign target op value, formed, ty, assignable => by
    obtain ⟨formedTarget, -, formedValue⟩ := formed
    simp only [Expr.type, gives_bind, gives_typeOfAssign, Operand.exists, Operand.mk.injEq,
      target.gives_type table formedTarget, value.gives_type table formedValue]
    constructor
    · rintro ⟨_, _, target, source, _, value, rfl, array, accepts, rfl, rfl⟩
      exact .assign target value array accepts
    · intro h
      cases h with
      | assign target value array accepts =>
        exact ⟨_, _, target, _, _, value, rfl, array, accepts, rfl, rfl⟩
  | .missing instead, _, ty, assignable => by
    simp only [Expr.type, gives_unexpected, false_iff]
    nofun

theorem Args.gives_check (table : SymbolTable) : ∀ (args : Args), args.Formed →
    ∀ {callee : Name} {params : List Symbol} (position : Nat),
      (args.check table callee params position).Gives () ∧
        params.length ≤ position + args.length ↔ Args.Fit table (params.drop position) args
  | .last arg, formed, callee, params, position => by
    simp only [Args.check, gives_bind, gives_requireArgument, Operand.exists,
      arg.gives_type table formed, Args.length]
    constructor
    · rintro ⟨⟨ty, assignable, typed, param, found, accepts⟩, count⟩
      rw [drop_eq_cons_iff.mpr ⟨found, List.drop_eq_nil_of_le count⟩]
      exact .last typed accepts
    · intro h
      generalize left : params.drop position = params' at h
      cases h with
      | last typed accepts =>
        obtain ⟨found, none⟩ := drop_eq_cons_iff.mp left
        exact ⟨⟨_, _, typed, _, found, accepts⟩, List.drop_eq_nil_iff.mp none⟩
  | .more arg comma rest, formed, callee, params, position => by
    have fit {callee} {params} := @Args.gives_check table rest formed.2 callee params (position + 1)
    rw [Args.length, Nat.add_comm rest.length, ← Nat.add_assoc]
    simp only [Args.check, gives_bind, gives_requireArgument, Operand.exists,
      arg.gives_type table formed.1]
    constructor
    · rintro ⟨⟨ty, assignable, typed, _, ⟨param, found, accepts⟩, checked⟩, count⟩
      rw [drop_eq_cons_iff.mpr ⟨found, rfl⟩]
      exact .more typed accepts (fit.mp ⟨checked, count⟩)
    · intro h
      generalize left : params.drop position = params' at h
      cases h with
      | more typed accepts others =>
        obtain ⟨found, rfl⟩ := drop_eq_cons_iff.mp left
        obtain ⟨checked, count⟩ := fit.mpr others
        exact ⟨⟨_, _, typed, (), ⟨_, found, accepts⟩, checked⟩, count⟩

end

end

end PlainC
