import PlainC.Proofs.Declaring.Judgement
import PlainC.Proofs.Typing.Exact

set_option autoImplicit false

/-!
What the check of variables and members gives is what the judgement says.
-/

namespace PlainC

open Checked

/-! ### Initializers -/

namespace Initializer

theorem takes_of_fit {start : Place} {ty ty' : Ty} {count : Nat} (array : ty.extent ≠ .scalar)
    (h : (fit start ty count).Gives ty') :
    ∃ extent, ty.extent.Takes count extent ∧ ty' = ⟨ty.base, extent⟩ := by
  obtain ⟨base, extent⟩ := ty
  cases extent with
  | scalar => exact absurd rfl array
  | unsized =>
    obtain rfl := gives_pure.mp h
    by_cases some : 0 < count
    · exact ⟨.sized count, .unsized some, by simp [some]⟩
    · obtain rfl := Nat.eq_zero_of_not_pos some
      exact ⟨.unsized, .empty, rfl⟩
  | sized size =>
    simp only [fit, gives_ite, gives_violate, gives_pure, and_false, false_or, Nat.not_lt] at h
    obtain ⟨fits, rfl⟩ := h
    exact ⟨.sized size, .sized fits, rfl⟩

theorem gives_requireArray {table : SymbolTable} {opening : Place} {ty : Ty} {a : Unit} :
    (requireArray table opening ty).Gives a ↔ ty.extent ≠ .scalar := by
  simp [requireArray, gives_ite, Ty.isArray]

theorem gives_checkElement {table : SymbolTable} {element : Ty} {expr : Expr}
    (formed : expr.Formed) {a : Unit} : (checkElement table element expr).Gives a ↔
      ∃ ty assignable, expr.HasType table ty assignable ∧ element.accepts ty = true := by
  simp [checkElement, gives_ite, Operand.exists, Expr.gives_type table expr formed]

theorem elements_of_gives {table : SymbolTable} {element : Ty} : ∀ {args : Args}, args.Formed →
    (checkElements table element args).Gives () → args.Elements table element
  | .last arg, formed, h => by
    obtain ⟨ty, assignable, typed, accepts⟩ := (gives_checkElement formed).mp h
    exact .last typed accepts
  | .more arg comma rest, formed, h => by
    simp only [checkElements, gives_bind, gives_checkElement formed.1] at h
    obtain ⟨_, ⟨ty, assignable, typed, accepts⟩, others⟩ := h
    exact .more typed accepts (elements_of_gives formed.2 others)

theorem accepts_array {target source : Ty} {count : Nat} (accepts : target.accepts source = true)
    (sized : source.extent = .sized count) : target.extent ≠ .scalar := by
  rintro scalar
  simp [Ty.accepts, Ty.isArray, scalar, sized] at accepts

theorem sizes_of_gives {table : SymbolTable} {ty ty' : Ty} {initializer : Initializer}
    (formed : initializer.Formed) (h : (initializer.type table ty).Gives ty') :
    initializer.Sizes table ty ty' := by
  cases initializer with
  | noElements opening closing =>
    simp only [Initializer.type, gives_bind, gives_requireArray] at h
    obtain ⟨_, array, fitted⟩ := h
    obtain ⟨extent, takes, rfl⟩ := takes_of_fit array fitted
    exact .noElements takes
  | elements opening args closing =>
    simp only [Initializer.type, gives_bind, gives_requireArray, gives_requireMark] at h
    obtain ⟨_, array, _, checked, _, ⟨place, rfl⟩, fitted⟩ := h
    obtain ⟨extent, takes, rfl⟩ := takes_of_fit array fitted
    exact .elements (elements_of_gives formed checked) takes
  | value expr =>
    simp only [Initializer.type, gives_bind, Operand.exists,
      Expr.gives_type table expr formed] at h
    obtain ⟨source, assignable, typed, h⟩ := h
    cases accepts : ty.accepts source with
    | false => simp [accepts] at h
    | true =>
      simp only [accepts, Bool.not_true, Bool.false_eq_true, if_false] at h
      split at h
      · rename_i count sized
        obtain ⟨extent, takes, rfl⟩ := takes_of_fit (accepts_array accepts sized) h
        exact .array typed accepts sized takes
      · rename_i unsized
        obtain rfl := gives_pure.mp h
        exact .value typed accepts unsized

end Initializer

/-! ### Variables -/

variable {table table' : SymbolTable} {base : Base}

theorem Declarator.hasType_of_gives {region : Region} {declarator : Declarator} {name : Name}
    {ty : Ty} (outside : ∀ index struct, region ≠ .members index struct)
    (formed : declarator.Formed) (h : (declarator.type region table name base).Gives ty) :
    declarator.HasType table base ty := by
  obtain ⟨slot, array, initializer⟩ := declarator
  obtain ⟨formedArray, formedInitializer⟩ := formed
  simp only [Declarator.type, gives_bind, ArrayPart.gives_extent formedArray] at h
  obtain ⟨extent, denotes, h⟩ := h
  cases initializer with
  | none =>
    obtain rfl := gives_pure.mp h
    exact .plain denotes
  | some initialized =>
    obtain ⟨op, initializer⟩ := initialized
    have sizes : (initializer.type table ⟨base, extent⟩).Gives ty := by
      cases region with
      | topLevel | body => exact h
      | members index struct => exact absurd rfl (outside index struct)
    exact .initialized denotes (Initializer.sizes_of_gives (formedInitializer _ rfl) sizes)

/-- Global variables stay in the table. -/
theorem variables_of_gives {declarators : List Declarator}
    (formed : ∀ declarator ∈ declarators, declarator.Formed)
    (h : (declarators.foldlM (Declarator.declare .topLevel base) table).Gives table') :
    ∃ symbols, Variables base table declarators symbols ∧
      table'.symbols = table.symbols ++ symbols := by
  induction declarators generalizing table with
  | nil =>
    obtain rfl := gives_pure.mp h
    exact ⟨[], .nil, by simp⟩
  | cons declarator declarators ih =>
    rw [List.foldlM_cons, gives_bind] at h
    obtain ⟨middle, declared, h⟩ := h
    obtain ⟨name, ty, found, typed, added⟩ := Declarator.gives_declare.mp declared
    obtain ⟨-, appended⟩ := Region.symbols_declare added
    obtain ⟨symbols, others, same⟩ := ih (fun d mem => formed d (by simp [mem])) h
    have outside : ∀ index struct, Region.topLevel ≠ .members index struct := nofun
    have hasType := Declarator.hasType_of_gives outside (formed declarator (by simp)) typed
    obtain ⟨slot, array, initializer⟩ := declarator
    obtain rfl : slot = .found name := found
    exact ⟨_, .cons hasType appended others, by rw [same, appended, List.append_assoc]; rfl⟩

/-! ### Members -/

/-- A base type that was there before means the same without what came behind it. -/
theorem BaseName.Denotes.of_append {name : BaseName} {more : List Symbol}
    (h : name.Denotes table' base) (same : table'.symbols = table.symbols ++ more)
    (old : ∀ index, base = .struct index → index < table.size) : name.Denotes table base := by
  cases h with
  | int | double | char => constructor
  | struct latest => exact .struct (latest.of_append same (old _ rfl))

theorem BaseName.Denotes.lt_size {name : BaseName} {index : Nat}
    (h : name.Denotes table (.struct index)) : index < table.size := by
  cases h with
  | struct latest => exact latest.lt_size

/-- A member belongs to the struct that stands last in the table. Its type is not that struct, so
its base type is one that was there before. -/
theorem member_of_gives {front : SymbolTable} {owner : Symbol} {struct : String}
    {baseName : BaseName} {declarator : Declarator} (formed : declarator.Formed)
    (same : table.symbols = front.symbols ++ [owner])
    (denotes : baseName.Denotes table base ∨ baseName.Denotes front base)
    (h : (declarator.declare (.members front.size struct) base table).Gives table') :
    baseName.Denotes front base ∧ ∃ symbol, declarator.IsMember front baseName symbol ∧
      table'.symbols = front.symbols ++ [{ owner with members := owner.members ++ [symbol] }] := by
  obtain ⟨slot, array, initializer⟩ := declarator
  obtain ⟨name, ty, found, typed, declared⟩ := Declarator.gives_declare.mp h
  obtain rfl : slot = .found name := found
  simp only [Declarator.type, gives_bind, ArrayPart.gives_extent formed.1] at typed
  obtain ⟨extent, denotesExtent, typed⟩ := typed
  cases initializer with
  | some initialized => exact absurd typed gives_violate
  | none =>
    obtain rfl := gives_pure.mp typed
    have other : base ≠ .struct front.size := by
      rintro rfl
      simp [Region.declare] at declared
    have old : baseName.Denotes front base := by
      rcases denotes with recent | old
      · refine recent.of_append same fun index isStruct => ?_
        subst isStruct
        have le : index < front.size + 1 := by
          simpa [SymbolTable.size, same] using recent.lt_size
        exact Nat.lt_of_le_of_ne (Nat.le_of_lt_succ le) fun same => other (same ▸ rfl)
      · exact old
    refine ⟨old, _, .intro old denotesExtent, ?_⟩
    have changed := Region.symbols_declare declared
    rw [same] at changed
    exact changed.trans (modify_append_right front.symbols [owner] 0 _)

theorem members_of_gives {front : SymbolTable} {owner : Symbol} {struct : String}
    {baseName : BaseName} {declarators : List Declarator}
    (formed : ∀ declarator ∈ declarators, declarator.Formed)
    (same : table.symbols = front.symbols ++ [owner])
    (denotes : baseName.Denotes table base ∨ baseName.Denotes front base)
    (h : (declarators.foldlM (Declarator.declare (.members front.size struct) base) table).Gives
      table') :
    ∃ symbols, List.Forall₂ (Declarator.IsMember front baseName) declarators symbols ∧
      table'.symbols = front.symbols ++ [{ owner with members := owner.members ++ symbols }] := by
  induction declarators generalizing table owner with
  | nil =>
    obtain rfl := gives_pure.mp h
    cases owner
    exact ⟨[], .nil, by simpa using same⟩
  | cons declarator declarators ih =>
    rw [List.foldlM_cons, gives_bind] at h
    obtain ⟨middle, declared, h⟩ := h
    obtain ⟨old, symbol, isMember, same'⟩ :=
      member_of_gives (formed declarator (by simp)) same denotes declared
    obtain ⟨symbols, others, last⟩ := ih (fun d mem => formed d (by simp [mem])) same' (.inr old) h
    exact ⟨symbol :: symbols, .cons isMember others, by simp [last]⟩

/-- The members of a struct, over all declarations in it. -/
theorem memberDecls_of_gives {front : SymbolTable} {owner : Symbol} {struct : String}
    {decls : List VarDecl} (formed : ∀ decl ∈ decls, decl.Formed)
    (same : table.symbols = front.symbols ++ [owner])
    (h : (decls.foldlM (VarDecl.declare (.members front.size struct)) table).Gives table') :
    ∃ symbols,
      List.Forall₂ (fun member => Declarator.IsMember front member.1 member.2)
        (decls.flatMap VarDecl.withBase) symbols ∧
      table'.symbols = front.symbols ++ [{ owner with members := owner.members ++ symbols }] := by
  induction decls generalizing table owner with
  | nil =>
    obtain rfl := gives_pure.mp h
    cases owner
    exact ⟨[], .nil, by simpa using same⟩
  | cons decl decls ih =>
    simp only [List.foldlM_cons, VarDecl.declare, gives_bind, gives_pure,
      BaseName.gives_resolve] at h
    obtain ⟨_, ⟨base, denotes, middle, declared, _, -, rfl⟩, h⟩ := h
    obtain ⟨symbols, members, same'⟩ :=
      members_of_gives (formed decl (by simp)) same (.inl denotes) declared
    obtain ⟨symbols', others, last⟩ := ih (fun d mem => formed d (by simp [mem])) same' h
    have members' : List.Forall₂ (fun member => Declarator.IsMember front member.1 member.2)
        decl.withBase symbols := List.forall₂_map_left_iff.mpr members
    exact ⟨symbols ++ symbols', List.rel_append members' others, by simp [last]⟩

end PlainC
