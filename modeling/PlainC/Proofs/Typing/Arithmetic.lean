import Mathlib.Order.Bounds.Basic
import PlainC.Proofs.Typing.Analysis
import PlainC.Proofs.Typing.Places

set_option autoImplicit false

/-!
Arithmetic over any number of operands. The check compares two types at each operator, but what comes
out is a matter of the operands alone: the widest of their bases, if all of them have a width and none
beneath a remainder is real.
-/

namespace PlainC

open Checked PlainC.Expr

/-! ### Widths -/

namespace Base

variable {base base' : Base} {rank : Nat}

theorem isSome_rank?_iff : (∃ rank, base.rank? = some rank) ↔ base ∈ [char, int, double] := by
  cases base <;> simp [rank?]

theorem rank?_inj (h : base.rank? = some rank) (h' : base'.rank? = some rank) : base = base' := by
  cases base <;> cases base' <;> first | rfl | cases h <;> cases h'

end Base

namespace Ty

variable {left right ty : Ty}

theorem isArray_eq_false_iff : ty.isArray = false ↔ ty = ⟨ty.base, .scalar⟩ := by
  obtain ⟨base, extent⟩ := ty
  simp [isArray]

theorem isArithmetic_iff :
    ty.isArithmetic = true ↔ ∃ base rank, base.rank? = some rank ∧ ty = ⟨base, .scalar⟩ := by
  obtain ⟨base, extent⟩ := ty
  simp [isArithmetic, isArray, Option.isSome_iff_exists, and_comm]

/-- The wider one of two types has the greater rank. -/
theorem promote?_eq_some_iff : left.promote? right = some ty ↔
    ∃ l r base m n, left = ⟨l, .scalar⟩ ∧ right = ⟨r, .scalar⟩ ∧ ty = ⟨base, .scalar⟩ ∧
      l.rank? = some m ∧ r.rank? = some n ∧ base.rank? = some (max m n) := by
  constructor
  · intro h
    unfold promote? at h
    split at h
    · cases h
    · rename_i scalars
      rw [Bool.or_eq_true, not_or, Bool.not_eq_true, Bool.not_eq_true, isArray_eq_false_iff,
        isArray_eq_false_iff] at scalars
      split at h
      · rename_i m n hasRank hasRank'
        obtain rfl := Option.some.inj h
        by_cases wider : m ≥ n
        · rw [if_pos wider]
          exact ⟨_, _, _, m, n, scalars.1, scalars.2, scalars.1, hasRank, hasRank', by
            rw [hasRank, max_eq_left wider]⟩
        · rw [if_neg wider]
          exact ⟨_, _, _, m, n, scalars.1, scalars.2, scalars.2, hasRank, hasRank', by
            rw [hasRank', max_eq_right (Nat.le_of_not_ge wider)]⟩
      · cases h
  · rintro ⟨l, r, base, m, n, rfl, rfl, rfl, hasRank, hasRank', widest⟩
    simp only [promote?, isArray, hasRank, hasRank']
    by_cases wider : m ≥ n
    · rw [max_eq_left wider] at widest
      simp [wider, Base.rank?_inj hasRank widest]
    · rw [max_eq_right (Nat.le_of_not_ge wider)] at widest
      simp [wider, Base.rank?_inj hasRank' widest]

end Ty

/-! ### One operator -/

namespace Expr

variable {table : SymbolTable} {expr left right : Expr} {operand : Operand} {base : Base} {rank : Nat}

/-- The expression is accepted as a scalar of a base type. -/
def IsScalar (table : SymbolTable) (expr : Expr) (base : Base) : Prop :=
  ∃ assignable, (expr.type table).Gives ⟨⟨base, .scalar⟩, assignable⟩

theorem IsScalar.unique {base' : Base} (h : expr.IsScalar table base) (h' : expr.IsScalar table base') :
    base = base' := by
  obtain ⟨_, given⟩ := h
  obtain ⟨_, given'⟩ := h'
  exact (Ty.mk.inj (Operand.mk.inj (given.unique given')).1).1

theorem gives_type_paren {opening closing : Place} :
    ((paren opening expr (.found closing)).type table).Gives operand ↔
      (expr.type table).Gives operand := by
  simp [Expr.type, Checked.backtracked]

theorem gives_type_negative {place : Place} :
    ((unary ⟨.minus, place⟩ expr).type table).Gives operand ↔ ∃ base rank, base.rank? = some rank ∧
      expr.IsScalar table base ∧ operand = .computed ⟨base, .scalar⟩ := by
  simp only [Expr.type, gives_bind, gives_ite, gives_withoutFirst, ← or_and_right, Decidable.em,
    true_and, gives_typeOfUnary, Operand.exists, Ty.isArithmetic_iff]
  constructor
  · rintro ⟨_, assignable, given, ⟨⟨⟩, -⟩ | ⟨-, ⟨base, rank, hasRank, rfl⟩, rfl⟩⟩
    exact ⟨base, rank, hasRank, ⟨assignable, given⟩, rfl⟩
  · rintro ⟨base, rank, hasRank, ⟨assignable, given⟩, rfl⟩
    exact ⟨_, assignable, given, .inr ⟨by decide, ⟨base, rank, hasRank, rfl⟩, rfl⟩⟩

theorem gives_type_arithmetic {op : At Operator}
    (known : op.value ∈ [Operator.plus, .minus, .star, .slash, .percent]) :
    ((binary op left right).type table).Gives operand ↔
      ∃ l r base m n, left.IsScalar table l ∧ right.IsScalar table r ∧ l.rank? = some m ∧
        r.rank? = some n ∧ base.rank? = some (max m n) ∧ (op.value = .percent → base ≠ .double) ∧
        operand = .computed ⟨base, .scalar⟩ := by
  have isArithmetic (l r : Ty) : typeOfBinary table op l r = typeOfArithmetic table op l r := by
    unfold typeOfBinary
    simp only [List.mem_cons, List.not_mem_nil, or_false] at known
    rcases known with same | same | same | same | same <;> rw [same]
  simp only [Expr.type, gives_bind, isArithmetic, gives_typeOfArithmetic, Operand.exists,
    Ty.promote?_eq_some_iff]
  constructor
  · rintro ⟨_, a, given, _, a', given', _, ⟨l, r, base, m, n, rfl, rfl, rfl, ranks⟩, real, rfl⟩
    exact ⟨l, r, base, m, n, ⟨a, given⟩, ⟨a', given'⟩, ranks.1, ranks.2.1, ranks.2.2, real, rfl⟩
  · rintro ⟨l, r, base, m, n, ⟨a, given⟩, ⟨a', given'⟩, hasRank, hasRank', widest, real, rfl⟩
    exact ⟨_, a, given, _, a', given', _,
      ⟨l, r, base, m, n, rfl, rfl, rfl, hasRank, hasRank', widest⟩, real, rfl⟩

end Expr

/-! ### Any number of operators -/

/-- Operands with arithmetic operators, signs and parentheses, as they are written. -/
inductive Arithmetic where
  | operand (expr : Expr)
  | paren (opening : Place) (inner : Arithmetic) (closing : Place)
  | negative (minus : Place) (inner : Arithmetic)
  | binary (op : At Operator) (known : op.value ∈ [Operator.plus, .minus, .star, .slash, .percent])
      (left right : Arithmetic)

namespace Arithmetic

def expr : Arithmetic → Expr
  | operand expr => expr
  | paren opening inner closing => .paren opening inner.expr (.found closing)
  | negative minus inner => .unary ⟨.minus, minus⟩ inner.expr
  | binary op _ left right => .binary op left.expr right.expr

/-- The operands from left to right. -/
def operands : Arithmetic → List Expr
  | operand expr => [expr]
  | paren _ inner _ | negative _ inner => inner.operands
  | binary _ _ left right => left.operands ++ right.operands

/-- The operands beneath remainders. -/
def remainders : Arithmetic → List Expr
  | operand _ => []
  | paren _ inner _ | negative _ inner => inner.remainders
  | binary op _ left right =>
    if op.value = .percent then left.operands ++ right.operands
    else left.remainders ++ right.remainders

/-- The operators and signs. -/
def operators : Arithmetic → List Operator
  | operand _ => []
  | paren _ inner _ => inner.operators
  | negative _ inner => .minus :: inner.operators
  | binary op _ left right => op.value :: (left.operators ++ right.operators)

variable {table : SymbolTable} {tree : Arithmetic} {base : Base} {rank : Nat}

/-- The operands are scalars that have a width, and none beneath a remainder is real. -/
structure Allowed (table : SymbolTable) (tree : Arithmetic) : Prop where
  operands : ∀ operand ∈ tree.operands,
    ∃ base ∈ [Base.char, .int, .double], operand.IsScalar table base
  remainders : ∀ operand ∈ tree.remainders, ¬operand.IsScalar table .double

/-- The widths of the operands. -/
def ranks (table : SymbolTable) (tree : Arithmetic) : Set Nat :=
  {rank | ∃ operand ∈ tree.operands, ∃ base, operand.IsScalar table base ∧ base.rank? = some rank}

theorem ranks_binary {op : At Operator} {known : op.value ∈ _} {left right : Arithmetic} :
    (binary op known left right).ranks table = left.ranks table ∪ right.ranks table := by
  ext rank
  simp [ranks, operands, or_and_right, exists_or]

theorem remainders_subset_operands (tree : Arithmetic) : tree.remainders ⊆ tree.operands := by
  induction tree with
  | operand => exact List.nil_subset _
  | paren _ _ _ ih | negative _ _ ih => exact ih
  | binary op _ left right ihLeft ihRight =>
    rw [remainders, operands]
    split
    · exact List.Subset.refl _
    · exact List.append_subset.mpr ⟨List.subset_append_of_subset_left _ ihLeft,
        List.subset_append_of_subset_right _ ihRight⟩

theorem allowed_binary {op : At Operator} {known : op.value ∈ _} {left right : Arithmetic} :
    (binary op known left right).Allowed table ↔ left.Allowed table ∧ right.Allowed table ∧
      (op.value = .percent → ∀ operand ∈ left.operands ++ right.operands,
        ¬operand.IsScalar table .double) := by
  by_cases isRemainder : op.value = .percent
  · have beneath : (binary op known left right).remainders = left.operands ++ right.operands :=
      if_pos isRemainder
    constructor
    · rintro ⟨known, notReal⟩
      rw [operands, List.forall_mem_append] at known
      rw [beneath] at notReal
      refine ⟨⟨known.1, ?_⟩, ⟨known.2, ?_⟩, fun _ => notReal⟩
      · exact fun operand mem => notReal operand
          (List.mem_append_left _ (left.remainders_subset_operands mem))
      · exact fun operand mem => notReal operand
          (List.mem_append_right _ (right.remainders_subset_operands mem))
    · rintro ⟨allowed, allowed', notReal⟩
      exact ⟨List.forall_mem_append.mpr ⟨allowed.operands, allowed'.operands⟩,
        beneath ▸ notReal isRemainder⟩
  · have beneath : (binary op known left right).remainders = left.remainders ++ right.remainders :=
      if_neg isRemainder
    constructor
    · rintro ⟨known, notReal⟩
      rw [operands, List.forall_mem_append] at known
      rw [beneath, List.forall_mem_append] at notReal
      exact ⟨⟨known.1, notReal.1⟩, ⟨known.2, notReal.2⟩, fun same => absurd same isRemainder⟩
    · rintro ⟨allowed, allowed', -⟩
      refine ⟨List.forall_mem_append.mpr ⟨allowed.operands, allowed'.operands⟩, ?_⟩
      rw [beneath]
      exact List.forall_mem_append.mpr ⟨allowed.remainders, allowed'.remainders⟩

theorem isGreatest_operand {expr : Expr} (hasRank : base.rank? = some rank)
    (scalar : expr.IsScalar table base) : IsGreatest ((operand expr).ranks table) rank := by
  refine ⟨⟨expr, List.mem_singleton_self expr, base, scalar, hasRank⟩, ?_⟩
  rintro other ⟨_, mem, base', scalar', hasRank'⟩
  obtain rfl := List.mem_singleton.mp mem
  rw [scalar.unique scalar', hasRank'] at hasRank
  exact (Option.some.inj hasRank).le

/-- The widest operands are real just if there is a real operand. -/
theorem eq_double_iff (hasRank : base.rank? = some rank)
    (greatest : IsGreatest (tree.ranks table) rank) :
    base = .double ↔ ∃ operand ∈ tree.operands, operand.IsScalar table .double := by
  constructor
  · rintro rfl
    obtain ⟨operand, mem, base, scalar, hasRank'⟩ := greatest.1
    exact ⟨operand, mem, Base.rank?_inj hasRank' hasRank ▸ scalar⟩
  · rintro ⟨operand, mem, scalar⟩
    have le : 2 ≤ rank := greatest.2 ⟨operand, mem, .double, scalar, rfl⟩
    cases base <;> cases hasRank <;> first | rfl | exact absurd le (by decide)

/-- What is allowed is accepted. -/
theorem exists_isScalar (allowed : tree.Allowed table) : ∃ base rank,
    base.rank? = some rank ∧ tree.expr.IsScalar table base ∧ IsGreatest (tree.ranks table) rank := by
  induction tree with
  | operand expr =>
    obtain ⟨base, known, scalar⟩ := allowed.operands expr (List.mem_singleton_self expr)
    obtain ⟨rank, hasRank⟩ := Base.isSome_rank?_iff.mpr known
    exact ⟨base, rank, hasRank, scalar, isGreatest_operand hasRank scalar⟩
  | paren opening inner closing ih =>
    obtain ⟨base, rank, hasRank, ⟨assignable, given⟩, greatest⟩ := ih ⟨allowed.1, allowed.2⟩
    exact ⟨base, rank, hasRank, ⟨assignable, gives_type_paren.mpr given⟩, greatest⟩
  | negative minus inner ih =>
    obtain ⟨base, rank, hasRank, scalar, greatest⟩ := ih ⟨allowed.1, allowed.2⟩
    exact ⟨base, rank, hasRank,
      ⟨false, gives_type_negative.mpr ⟨base, rank, hasRank, scalar, rfl⟩⟩, greatest⟩
  | binary op known left right ihLeft ihRight =>
    obtain ⟨allowedLeft, allowedRight, real⟩ := allowed_binary.mp allowed
    obtain ⟨l, m, hasRank, scalar, greatest⟩ := ihLeft allowedLeft
    obtain ⟨r, n, hasRank', scalar', greatest'⟩ := ihRight allowedRight
    have both : IsGreatest ((binary op known left right).ranks table) (max m n) := by
      rw [ranks_binary]
      exact greatest.union greatest'
    obtain ⟨base, widest⟩ : ∃ base : Base, base.rank? = some (max m n) := by
      obtain ⟨-, -, base, -, widest⟩ := both.1
      exact ⟨base, widest⟩
    refine ⟨base, max m n, widest, ⟨false, (gives_type_arithmetic known).mpr
      ⟨l, r, base, m, n, scalar, scalar', hasRank, hasRank', widest, ?_, rfl⟩⟩, both⟩
    rintro isRemainder rfl
    obtain ⟨operand, mem, isReal⟩ := (eq_double_iff widest both).mp rfl
    exact real isRemainder operand mem isReal

/-- What is accepted as a scalar is allowed, and it is as wide as the widest operand. -/
theorem allowed_of_isScalar (hasRank : base.rank? = some rank)
    (scalar : tree.expr.IsScalar table base) :
    tree.Allowed table ∧ IsGreatest (tree.ranks table) rank := by
  induction tree generalizing base rank with
  | operand expr =>
    have known := Base.isSome_rank?_iff.mp ⟨rank, hasRank⟩
    exact ⟨⟨List.forall_mem_singleton.mpr ⟨base, known, scalar⟩, nofun⟩,
      isGreatest_operand hasRank scalar⟩
  | paren opening inner closing ih =>
    obtain ⟨assignable, given⟩ := scalar
    obtain ⟨allowed, greatest⟩ := ih hasRank ⟨assignable, gives_type_paren.mp given⟩
    exact ⟨⟨allowed.1, allowed.2⟩, greatest⟩
  | negative minus inner ih =>
    obtain ⟨assignable, given⟩ := scalar
    obtain ⟨base', -, -, scalar, same⟩ := gives_type_negative.mp given
    obtain rfl : base = base' := by simpa [Operand.computed] using congrArg (·.ty.base) same
    obtain ⟨allowed, greatest⟩ := ih hasRank scalar
    exact ⟨⟨allowed.1, allowed.2⟩, greatest⟩
  | binary op known left right ihLeft ihRight =>
    obtain ⟨assignable, given⟩ := scalar
    obtain ⟨l, r, base', m, n, scalar, scalar', hasRankLeft, hasRankRight, widest, real, same⟩ :=
      (gives_type_arithmetic known).mp given
    obtain rfl : base = base' := by simpa [Operand.computed] using congrArg (·.ty.base) same
    obtain rfl := Option.some.inj (hasRank.symm.trans widest)
    obtain ⟨allowed, greatest⟩ := ihLeft hasRankLeft scalar
    obtain ⟨allowed', greatest'⟩ := ihRight hasRankRight scalar'
    have both : IsGreatest ((binary op known left right).ranks table) (max m n) := by
      rw [ranks_binary]
      exact greatest.union greatest'
    refine ⟨allowed_binary.mpr ⟨allowed, allowed', fun isRemainder operand mem isReal => ?_⟩, both⟩
    exact real isRemainder ((eq_double_iff hasRank both).mpr ⟨operand, mem, isReal⟩)

/-- With an operator, an expression is accepted only as a scalar that has a width, and nothing can be
assigned to it. -/
theorem computed_of_gives (some : tree.operators ≠ []) {operand : Operand}
    (given : (tree.expr.type table).Gives operand) :
    ∃ base rank, base.rank? = .some rank ∧ operand = .computed ⟨base, .scalar⟩ := by
  induction tree with
  | operand => exact absurd rfl some
  | paren opening inner closing ih => exact ih some (gives_type_paren.mp given)
  | negative minus inner =>
    obtain ⟨base, rank, hasRank, -, same⟩ := gives_type_negative.mp given
    exact ⟨base, rank, hasRank, same⟩
  | binary op known left right =>
    obtain ⟨_, _, base, m, n, -, -, -, -, widest, -, same⟩ := (gives_type_arithmetic known).mp given
    exact ⟨base, max m n, widest, same⟩

/-! ### The same operands -/

/-- The operands in a tree that is read are well-formed themselves. -/
theorem formed_operands (formed : tree.expr.Formed) (gapless : Gapless tree.expr.parts) :
    ∀ operand ∈ tree.operands, operand.Formed ∧ Gapless operand.parts := by
  induction tree with
  | operand expr => exact List.forall_mem_singleton.mpr ⟨formed, gapless⟩
  | paren opening inner closing ih =>
    simp only [Arithmetic.expr, Expr.parts, gapless_append] at gapless
    exact ih formed gapless.1.2
  | negative minus inner ih =>
    simp only [Arithmetic.expr, Expr.parts, gapless_append] at gapless
    exact ih formed.2.1 gapless.2
  | binary op known left right ihLeft ihRight =>
    simp only [Arithmetic.expr, Expr.parts, gapless_append] at gapless
    obtain ⟨-, formedLeft, -, formedRight, -⟩ := formed
    exact List.forall_mem_append.mpr
      ⟨ihLeft formedLeft gapless.1.1, ihRight formedRight gapless.2⟩

theorem remainders_eq_nil (noRemainder : .percent ∉ tree.operators) : tree.remainders = [] := by
  induction tree with
  | operand => rfl
  | paren _ _ _ ih => exact ih noRemainder
  | negative _ _ ih => exact ih fun mem => noRemainder (List.mem_cons_of_mem _ mem)
  | binary op known left right ihLeft ihRight =>
    rw [operators, List.mem_cons, List.mem_append, not_or, not_or] at noRemainder
    obtain ⟨other, left, right⟩ := noRemainder
    rw [remainders, if_neg (Ne.symm other), ihLeft left, ihRight right, List.append_nil]

variable {tree' : Arithmetic}

/-- Operands of the same words are accepted as the same scalars. -/
theorem exists_same_operand {ts rest ts' rest' : List Lexeme} (fronts : tree.expr.Fronts ts rest)
    (fronts' : tree'.expr.Fronts ts' rest')
    (among : tree.operands.map kinds ⊆ tree'.operands.map kinds) (table : SymbolTable) :
    ∀ operand ∈ tree.operands, ∃ operand' ∈ tree'.operands,
      ∀ base, operand.IsScalar table base ↔ operand'.IsScalar table base := by
  intro operand mem
  obtain ⟨operand', mem', same⟩ := List.mem_map.mp (among (List.mem_map_of_mem mem))
  obtain ⟨formed, gapless⟩ := formed_operands fronts.formed fronts.gapless operand mem
  obtain ⟨formed', gapless'⟩ := formed_operands fronts'.formed fronts'.gapless operand' mem'
  exact ⟨operand', mem', fun base => exists_congr fun assignable =>
    gives_type_of_kinds formed gapless formed' gapless' same.symm⟩

theorem ranks_subset_of_same (same : ∀ operand ∈ tree.operands, ∃ operand' ∈ tree'.operands,
    ∀ base, operand.IsScalar table base ↔ operand'.IsScalar table base) :
    tree.ranks table ⊆ tree'.ranks table := by
  rintro rank ⟨operand, mem, base, scalar, hasRank⟩
  obtain ⟨operand', mem', same⟩ := same operand mem
  exact ⟨operand', mem', base, (same base).mp scalar, hasRank⟩

/-- Without remainders, only the operands count, in whatever order and groups. -/
theorem isScalar_of_same (noRemainder : .percent ∉ tree'.operators)
    (same : ∀ operand ∈ tree.operands, ∃ operand' ∈ tree'.operands,
      ∀ base, operand.IsScalar table base ↔ operand'.IsScalar table base)
    (same' : ∀ operand' ∈ tree'.operands, ∃ operand ∈ tree.operands,
      ∀ base, operand'.IsScalar table base ↔ operand.IsScalar table base)
    (hasRank : base.rank? = some rank) (scalar : tree.expr.IsScalar table base) :
    tree'.expr.IsScalar table base := by
  obtain ⟨allowed, greatest⟩ := allowed_of_isScalar hasRank scalar
  have allowed' : tree'.Allowed table := by
    refine ⟨fun operand' mem' => ?_, by simp [remainders_eq_nil noRemainder]⟩
    obtain ⟨operand, mem, same⟩ := same' operand' mem'
    obtain ⟨base, known, scalar⟩ := allowed.operands operand mem
    exact ⟨base, known, (same base).mpr scalar⟩
  obtain ⟨base', rank', hasRank', scalar', greatest'⟩ := exists_isScalar allowed'
  rw [Set.Subset.antisymm (ranks_subset_of_same same') (ranks_subset_of_same same)] at greatest'
  obtain rfl := greatest.unique greatest'
  rwa [Base.rank?_inj hasRank hasRank']

/-- Accepted is what is a scalar with a width. -/
theorem gives_iff (some : tree.operators ≠ []) {operand : Operand} :
    (tree.expr.type table).Gives operand ↔ ∃ base rank, operand = .computed ⟨base, .scalar⟩ ∧
      base.rank? = .some rank ∧ tree.expr.IsScalar table base := by
  constructor
  · intro given
    obtain ⟨base, rank, hasRank, rfl⟩ := computed_of_gives some given
    exact ⟨base, rank, rfl, hasRank, false, given⟩
  · rintro ⟨base, rank, rfl, hasRank, assignable, given⟩
    obtain ⟨_, _, -, same⟩ := computed_of_gives some given
    obtain rfl : assignable = false := congrArg Operand.assignable same
    exact given

/-- The type of arithmetic is that of the widest operand.

An expression with arithmetic operators, signs and parentheses in any shape is accepted just if each
operand is a scalar of an arithmetic base and none beneath a remainder is real. Its type is then the
scalar of the widest base among the operands, and it cannot be assigned to. So without remainders the
operands can be put in any other order and groups, with any operators: what is read then is accepted
just the same, and with the same type. -/
theorem type_parse (table : SymbolTable) (last : Lexeme) (ts rest : List Lexeme) (tree : Arithmetic)
    (fronts : tree.expr.Fronts ts rest) (some : tree.operators ≠ []) :
    (Expr.parse last ts).2 = rest ∧
    ((∃ operand, ((Expr.parse last ts).1.type table).result = .ok operand) ↔
      (∀ operand ∈ tree.operands, ∃ base ∈ [Base.char, .int, .double], operand.IsScalar table base) ∧
        ∀ operand ∈ tree.remainders, ¬operand.IsScalar table .double) ∧
    (∀ operand, ((Expr.parse last ts).1.type table).result = .ok operand →
      ∃ base rank, operand = ⟨⟨base, .scalar⟩, false⟩ ∧ base.rank? = .some rank ∧
        IsGreatest (tree.ranks table) rank) ∧
    ∀ last' ts' rest' (tree' : Arithmetic), tree'.expr.Fronts ts' rest' → tree'.operators ≠ [] →
      .percent ∉ tree.operators → .percent ∉ tree'.operators →
      (tree.operands.map kinds).Perm (tree'.operands.map kinds) →
      ∀ operand, ((Expr.parse last ts).1.type table).result = .ok operand ↔
        ((Expr.parse last' ts').1.type table).result = .ok operand := by
  rw [fronts.parse_eq last]
  refine ⟨rfl, ⟨?_, ?_⟩, ?_, ?_⟩
  · rintro ⟨operand, given⟩
    obtain ⟨base, rank, -, hasRank, scalar⟩ := (gives_iff some).mp given
    obtain ⟨allowed, -⟩ := allowed_of_isScalar hasRank scalar
    exact ⟨allowed.operands, allowed.remainders⟩
  · rintro ⟨known, notReal⟩
    obtain ⟨base, rank, hasRank, scalar, -⟩ := exists_isScalar ⟨known, notReal⟩
    exact ⟨_, (gives_iff some).mpr ⟨base, rank, rfl, hasRank, scalar⟩⟩
  · intro operand given
    obtain ⟨base, rank, same, hasRank, scalar⟩ := (gives_iff some).mp given
    exact ⟨base, rank, same, hasRank, (allowed_of_isScalar hasRank scalar).2⟩
  · intro last' ts' rest' tree' fronts' some' noRemainder noRemainder' perm operand
    rw [fronts'.parse_eq last']
    have same := exists_same_operand fronts fronts' perm.subset table
    have same' := exists_same_operand fronts' fronts perm.symm.subset table
    refine (gives_iff some).trans (Iff.trans ?_ (gives_iff some').symm)
    refine exists_congr fun base => exists_congr fun rank => and_congr_right fun _ => ?_
    refine and_congr_right fun hasRank => ⟨?_, ?_⟩
    · exact isScalar_of_same noRemainder' same same' hasRank
    · exact isScalar_of_same noRemainder same' same hasRank

/-- With a `char` and a number, `-c % 2` is an `int` in front of a semicolon. -/
theorem type_parse_remainder :
    let ts := Lexeme.number 0 [⟨.operator .minus, ⟨0, 1⟩, 1⟩, ⟨.identifier "c", ⟨1, 2⟩, 1⟩,
      ⟨.operator .percent, ⟨3, 4⟩, 1⟩, ⟨.literal .integer "2", ⟨5, 6⟩, 1⟩,
      ⟨.delimiter .semicolon, ⟨6, 7⟩, 1⟩]
    let table : SymbolTable := ⟨["c"], [⟨"c", .var, .char, .global, 0, 1, [], []⟩]⟩
    let tree : Arithmetic := .binary ⟨.percent, ⟨2, ⟨3, 4⟩, 1⟩⟩ (by decide)
      (.negative ⟨0, ⟨0, 1⟩, 1⟩ (.operand (.reference ⟨"c", ⟨1, ⟨1, 2⟩, 1⟩⟩)))
      (.operand (.literal .integer ⟨"2", ⟨3, ⟨5, 6⟩, 1⟩⟩))
    tree.expr.Fronts ts (Lexeme.number 4 [⟨.delimiter .semicolon, ⟨6, 7⟩, 1⟩]) ∧
    tree.operators ≠ [] ∧
    ∃ operand, ((Expr.parse ⟨.endOfInput, ⟨5, ⟨7, 7⟩, 1⟩⟩ ts).1.type table).result = .ok operand ∧
      ∃ base rank, operand = ⟨⟨base, .scalar⟩, false⟩ ∧ base.rank? = .some rank ∧
        IsGreatest (tree.ranks table) rank := by
  intro ts table tree
  have fronts : tree.expr.Fronts ts (Lexeme.number 4 [⟨.delimiter .semicolon, ⟨6, 7⟩, 1⟩]) := by
    refine ⟨?_, rfl, rfl, stops_of_closed ?_ 0 _⟩
    · simp [tree, Arithmetic.expr, Expr.Formed, Expr.tightness, Operator.level]
    · rintro t first
      obtain rfl := Option.some.inj first
      exact ⟨.semicolon, by decide, rfl⟩
  have some : tree.operators ≠ [] := List.cons_ne_nil _ _
  obtain ⟨-, ⟨-, accepted⟩, typed, -⟩ :=
    type_parse table ⟨.endOfInput, ⟨5, ⟨7, 7⟩, 1⟩⟩ ts _ tree fronts some
  have character : (Expr.reference ⟨"c", ⟨1, ⟨1, 2⟩, 1⟩⟩).IsScalar table .char := ⟨true, rfl⟩
  have number : (Expr.literal .integer ⟨"2", ⟨3, ⟨5, 6⟩, 1⟩⟩).IsScalar table .int := ⟨false, rfl⟩
  have operands : ∀ operand ∈ tree.operands,
      ∃ base ∈ [Base.char, .int], operand.IsScalar table base :=
    List.forall_mem_cons.mpr ⟨⟨.char, by decide, character⟩,
      List.forall_mem_singleton.mpr ⟨.int, by decide, number⟩⟩
  have notReal : ∀ operand ∈ tree.remainders, ¬operand.IsScalar table .double := by
    intro operand mem real
    obtain ⟨base, known, scalar⟩ := operands operand (tree.remainders_subset_operands mem)
    rw [scalar.unique real] at known
    exact absurd known (by decide)
  obtain ⟨operand, given⟩ := accepted ⟨fun operand mem => by
    obtain ⟨base, known, scalar⟩ := operands operand mem
    have wider : [Base.char, .int] ⊆ [Base.char, .int, .double] := by decide
    exact ⟨base, wider known, scalar⟩, notReal⟩
  exact ⟨fronts, some, operand, given, typed operand given⟩

end Arithmetic

end PlainC
