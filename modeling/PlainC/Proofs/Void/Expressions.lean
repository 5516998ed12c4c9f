import PlainC.Proofs.Typing.Exact

set_option autoImplicit false

/-!
Where an expression can be void. If only functions are void, then so is nothing in an expression but
a call, perhaps in parentheses, that is the whole of it.
-/

namespace PlainC

/-! ### Parts of expressions -/

mutual

/-- The expression and all the expressions in it. -/
def Expr.inside : Expr → List Expr
  | expr@(.literal _ _) | expr@(.reference _) | expr@(.callEmpty _ _ _) | expr@(.missing _) => [expr]
  | expr@(.call _ _ args _) => expr :: args.inside
  | expr@(.paren _ inner _) => expr :: inner.inside
  | expr@(.element array _ index _) => expr :: (array.inside ++ index.inside)
  | expr@(.member record _ _) => expr :: record.inside
  | expr@(.unary _ operand) => expr :: operand.inside
  | expr@(.cast _ _ _ operand) => expr :: operand.inside
  | expr@(.binary _ left right) => expr :: (left.inside ++ right.inside)
  | expr@(.assign target _ value) => expr :: (target.inside ++ value.inside)

def Args.inside : Args → List Expr
  | .last arg => arg.inside
  | .more arg _ rest => arg.inside ++ rest.inside

end

/-- An expression in any number of parentheses. -/
inductive Expr.Wraps : Expr → Expr → Prop
  | self {expr} : Wraps expr expr
  | paren {opening inner closing expr} : Wraps inner expr → Wraps (.paren opening inner closing) expr

/-- The name that is called, if the expression is a call. -/
def Expr.callee? : Expr → Option Name
  | .call callee _ _ _ | .callEmpty callee _ _ => some callee
  | _ => none

/-- A call of something that gives nothing. -/
def Expr.CallsVoid (table : SymbolTable) (expr : Expr) : Prop :=
  ∃ callee symbol, expr.callee? = some callee ∧ table.Named callee.value symbol ∧
    symbol.ty.isVoid = true

/-! ### Tables -/

/-- A symbol is void only if it is a function that gives nothing; its arguments and members never
are. -/
structure Symbol.Valued (symbol : Symbol) : Prop where
  own : symbol.ty.isVoid = true →
    (symbol.cls = .function ∨ symbol.cls = .external) ∧ symbol.ty = .void
  parts : ∀ part ∈ symbol.args ++ symbol.members, part.ty.isVoid = false

/-- Nothing that a table has is void but functions. -/
def SymbolTable.Valued (table : SymbolTable) : Prop := ∀ symbol ∈ table.symbols, symbol.Valued

variable {table : SymbolTable}

theorem SymbolTable.Latest.mem {test : Symbol → Prop} {symbol : Symbol}
    (h : table.Latest test symbol) : symbol ∈ table.symbols := by
  obtain ⟨index, before, behind, same, -⟩ := h
  rw [same]
  exact List.mem_append_right _ List.mem_cons_self

theorem SymbolTable.Named.unique {name : String} {symbol symbol' : Symbol}
    (h : table.Named name symbol) (h' : table.Named name symbol') : symbol = symbol' :=
  Option.some.inj ((find?_iff.mpr h).symm.trans (find?_iff.mpr h'))

/-! ### Types -/

namespace Ty

/-- A type is void only by itself, not as that of the elements of an array. -/
def VoidAlone (ty : Ty) : Prop := ty.isVoid = true → ty = .void

variable {left right ty : Ty}

/-- What is an array is not void. -/
theorem isVoid_of_array (alone : ty.VoidAlone) (array : ty.extent ≠ .scalar) : ty.isVoid = false := by
  cases void : ty.isVoid with
  | false => rfl
  | true => exact absurd (congrArg extent (alone void)) array

theorem isVoid_of_arithmetic (arithmetic : ty.isArithmetic = true) : ty.isVoid = false := by
  obtain ⟨base, extent⟩ := ty
  cases base <;> simp_all [isArithmetic, isVoid, Base.rank?]

theorem accepts_void (ty : Ty) : ty.accepts .void = false := by
  obtain ⟨base, extent⟩ := ty
  cases base <;> cases extent <;> rfl

theorem void_accepts (ty : Ty) : Ty.void.accepts ty = false := by
  obtain ⟨base, extent⟩ := ty
  cases base <;> cases extent <;> rfl

/-- Nothing void converts to anything. -/
theorem isVoid_source (accepts : left.accepts right = true) (alone : right.VoidAlone) :
    right.isVoid = false := by
  cases void : right.isVoid with
  | false => rfl
  | true =>
    rw [alone void, accepts_void] at accepts
    cases accepts

/-- Nothing converts to anything void. -/
theorem isVoid_target (accepts : left.accepts right = true) (alone : left.VoidAlone) :
    left.isVoid = false := by
  cases void : left.isVoid with
  | false => rfl
  | true =>
    rw [alone void, void_accepts] at accepts
    cases accepts

/-- The sides of arithmetic are not void, and so neither is the wider one of them. -/
theorem isVoid_of_promote (promoted : left.promote? right = some ty) :
    left.isVoid = false ∧ right.isVoid = false ∧ ty.isVoid = false := by
  obtain ⟨base, extent⟩ := left
  obtain ⟨base', extent'⟩ := right
  simp only [promote?] at promoted
  split at promoted
  · cases promoted
  · split at promoted
    · rename_i l r isL isR
      have left : base ≠ .void := by rintro rfl; cases isL
      have right : base' ≠ .void := by rintro rfl; cases isR
      obtain rfl := Option.some.inj promoted
      split <;> simp [isVoid, left, right]
    · cases promoted

end Ty

/-- What a written type means is not void. -/
theorem TypeName.Denotes.isVoid {name : TypeName} {ty : Ty} (h : name.Denotes table ty) :
    ty.isVoid = false := by
  obtain ⟨base, array⟩ := name
  obtain ⟨base', extent⟩ := ty
  obtain ⟨denotes, -⟩ := h
  cases denotes <;> rfl

/-! ### Expressions -/

/-- The expression has a type, and it is not void. -/
def Expr.IsValue (table : SymbolTable) (expr : Expr) : Prop :=
  ∃ ty assignable, expr.HasType table ty assignable ∧ ty.isVoid = false

/-- The type of an expression is void only by itself, and what is not a value in the expression is
the whole of it, in parentheses, and a call. -/
structure Expr.Proper (table : SymbolTable) (expr : Expr) (ty : Ty) (assignable : Bool) :
    Prop where
  alone : ty.VoidAlone
  calls : ty.isVoid = true → ∃ call, expr.Wraps call ∧ call.CallsVoid table
  inside : ∀ expr' ∈ expr.inside, expr'.IsValue table ∨
    ty = .void ∧ expr.Wraps expr' ∧ expr'.HasType table ty assignable ∧
      ∃ call, expr'.Wraps call ∧ call.CallsVoid table

namespace Expr

variable {expr : Expr} {ty : Ty} {assignable : Bool}

/-- Everything in an expression that has a value is a value. -/
theorem Proper.values (h : expr.Proper table ty assignable) (value : ty.isVoid = false) :
    ∀ expr' ∈ expr.inside, expr'.IsValue table := by
  intro expr' among
  rcases h.inside expr' among with isValue | ⟨rfl, -⟩
  · exact isValue
  · cases value

/-- What has a value is proper if all that is in it are values. -/
theorem proper_of_values {parts : List Expr} (typed : expr.HasType table ty assignable)
    (value : ty.isVoid = false) (inside : expr.inside = expr :: parts)
    (values : ∀ part ∈ parts, part.IsValue table) : expr.Proper table ty assignable := by
  have absurd : ty.isVoid ≠ true := Bool.eq_false_iff.mp value
  refine ⟨fun void => (absurd void).elim, fun void => (absurd void).elim, ?_⟩
  rw [inside]
  refine List.forall_mem_cons.mpr ⟨?_, fun part among => .inl (values part among)⟩
  exact .inl ⟨ty, assignable, typed, value⟩

/-- A call is proper if all in its arguments are values. -/
theorem proper_of_call (valued : table.Valued) {callee : Name} {symbol : Symbol}
    {parts : List Expr} (typed : expr.HasType table symbol.ty false)
    (calls : expr.callee? = some callee) (named : table.Named callee.value symbol)
    (inside : expr.inside = expr :: parts) (values : ∀ part ∈ parts, part.IsValue table) :
    expr.Proper table symbol.ty false := by
  have alone : symbol.ty.VoidAlone := fun void => ((valued symbol named.mem).own void).2
  cases void : symbol.ty.isVoid with
  | false => exact proper_of_values typed void inside values
  | true =>
    have callsVoid : expr.CallsVoid table := ⟨callee, symbol, calls, named, void⟩
    refine ⟨alone, fun _ => ⟨expr, .self, callsVoid⟩, ?_⟩
    rw [inside]
    refine List.forall_mem_cons.mpr ⟨?_, fun part among => .inl (values part among)⟩
    exact .inr ⟨alone void, .self, typed, expr, .self, callsVoid⟩

end Expr

open PlainC.Expr

mutual

theorem Expr.proper (valued : table.Valued) : ∀ {expr : Expr} {ty : Ty} {assignable : Bool},
    expr.HasType table ty assignable → expr.Proper table ty assignable
  | .literal form text, ty, assignable, typed => by
    have value : ty.isVoid = false := by cases typed <;> rfl
    exact proper_of_values typed value rfl nofun
  | .reference name, ty, assignable, typed => by
    have value : ty.isVoid = false := by
      cases typed with
      | reference named isVar =>
        refine Bool.eq_false_iff.mpr fun void => ?_
        have callable := ((valued _ named.mem).own void).1
        simp [isVar] at callable
    exact proper_of_values typed value rfl nofun
  | .callEmpty callee opening closing, ty, assignable, typed => by
    cases id typed with
    | callEmpty named callable none =>
      exact proper_of_call valued typed rfl named rfl nofun
  | .call callee opening args closing, ty, assignable, typed => by
    cases id typed with
    | call named callable fit =>
      exact proper_of_call valued typed rfl named rfl (Args.values valued fit)
  | .paren opening inner closing, ty, assignable, typed => by
    cases id typed with
    | @paren _ _ place _ _ innerTyped =>
      have proper := Expr.proper valued innerTyped
      -- parentheses pass on what is in them, so a void comes from a call further inside
      have wrapped (void : ty.isVoid = true) :
          ∃ call, (Expr.paren opening inner (.found place)).Wraps call ∧ call.CallsVoid table := by
        obtain ⟨call, wraps, calls⟩ := proper.calls void
        exact ⟨call, .paren wraps, calls⟩
      refine ⟨proper.alone, wrapped, fun expr' among => ?_⟩
      rcases List.mem_cons.mp among with rfl | among
      · cases void : ty.isVoid with
        | false => exact .inl ⟨ty, assignable, typed, void⟩
        | true => exact .inr ⟨proper.alone void, .self, typed, wrapped void⟩
      · refine (proper.inside expr' among).imp_right ?_
        rintro ⟨isVoid, wraps, typed', calls⟩
        exact ⟨isVoid, .paren wraps, typed', calls⟩
  | .element array opening index closing, ty, assignable, typed => by
    cases id typed with
    | element arrayTyped isArray indexTyped =>
      have array := Expr.proper valued arrayTyped
      have value := Ty.isVoid_of_array array.alone isArray
      refine proper_of_values typed value rfl (List.forall_mem_append.mpr ⟨array.values value, ?_⟩)
      exact (Expr.proper valued indexTyped).values rfl
  | .member record dot slot, ty, assignable, typed => by
    cases id typed with
    | @member _ _ _ _ _ owner symbol recordTyped declared found =>
      have owner_mem : owner ∈ table.symbols :=
        List.mem_of_getElem? (Option.filter_eq_some_iff.mp declared).1
      have value : symbol.ty.isVoid = false := (valued owner owner_mem).parts symbol
        (List.mem_append_right _ (List.mem_of_find?_eq_some found))
      exact proper_of_values typed value rfl ((Expr.proper valued recordTyped).values rfl)
  | .unary op operand, ty, assignable, typed => by
    cases id typed with
    | negative operandTyped arithmetic =>
      have value := Ty.isVoid_of_arithmetic arithmetic
      exact proper_of_values typed value rfl ((Expr.proper valued operandTyped).values value)
    | negation operandTyped struct void =>
      exact proper_of_values typed rfl rfl ((Expr.proper valued operandTyped).values void)
  | .cast opening target closing operand, ty, assignable, typed => by
    cases id typed with
    | cast denotes operandTyped accepts =>
      have operand := Expr.proper valued operandTyped
      have void := Ty.isVoid_source accepts operand.alone
      exact proper_of_values typed denotes.isVoid rfl (operand.values void)
  | .binary op left right, ty, assignable, typed => by
    cases id typed with
    | logical mem leftTyped rightTyped struct void struct' void' =>
      refine proper_of_values typed rfl rfl (List.forall_mem_append.mpr ⟨?_, ?_⟩)
      · exact (Expr.proper valued leftTyped).values void
      · exact (Expr.proper valued rightTyped).values void'
    | comparison mem leftTyped rightTyped struct void array struct' void' array' =>
      refine proper_of_values typed rfl rfl (List.forall_mem_append.mpr ⟨?_, ?_⟩)
      · exact (Expr.proper valued leftTyped).values void
      · exact (Expr.proper valued rightTyped).values void'
    | arithmetic mem leftTyped rightTyped promoted remainder =>
      obtain ⟨void, void', value⟩ := Ty.isVoid_of_promote promoted
      refine proper_of_values typed value rfl (List.forall_mem_append.mpr ⟨?_, ?_⟩)
      · exact (Expr.proper valued leftTyped).values void
      · exact (Expr.proper valued rightTyped).values void'
  | .assign target op value, ty, assignable, typed => by
    cases id typed with
    | assign targetTyped valueTyped array accepts =>
      have left := Expr.proper valued targetTyped
      have right := Expr.proper valued valueTyped
      have void := Ty.isVoid_target accepts left.alone
      have void' := Ty.isVoid_source accepts right.alone
      refine proper_of_values typed void rfl (List.forall_mem_append.mpr ⟨?_, ?_⟩)
      · exact left.values void
      · exact right.values void'
  | .missing instead, ty, assignable, typed => by cases typed

theorem Args.values (valued : table.Valued) : ∀ {args : Args} {params : List Symbol},
    Args.Fit table params args → ∀ expr' ∈ args.inside, expr'.IsValue table
  | .last arg, params, fit => by
    cases fit with
    | last typed accepts =>
      have arg := Expr.proper valued typed
      exact arg.values (Ty.isVoid_source accepts arg.alone)
  | .more arg comma rest, params, fit => by
    cases fit with
    | more typed accepts fit =>
      have arg := Expr.proper valued typed
      refine List.forall_mem_append.mpr ⟨?_, Args.values valued fit⟩
      exact arg.values (Ty.isVoid_source accepts arg.alone)

end

namespace Expr

variable {expr call : Expr} {ty : Ty} {assignable : Bool}

/-- What is in parentheses has the type of the parentheses. -/
theorem Wraps.typed (wraps : expr.Wraps call) (typed : expr.HasType table ty assignable) :
    call.HasType table ty assignable := by
  induction wraps with
  | self => exact typed
  | paren _ ih =>
    cases typed with
    | paren typed => exact ih typed

theorem CallsVoid.isVoid (calls : call.CallsVoid table)
    (typed : call.HasType table ty assignable) : ty.isVoid = true := by
  obtain ⟨callee, symbol, called, named, void⟩ := calls
  cases typed with
  | callEmpty named' | call named' =>
    obtain rfl := Option.some.inj called
    exact named'.unique named ▸ void
  | _ => cases called

end Expr

end PlainC
