import PlainC.Proofs.Machine.Scope
import PlainC.Proofs.Structs.Typing

set_option autoImplicit false

/-!
The structs in a run of the machine. A step declares only symbols with known structs, and it takes
no struct back: what is taken back at the end of a function was declared in that function, where
there are no structs.
-/

namespace PlainC

open Checked Machine

/-! ### Declarations of variables -/

section

variable {table table' : SymbolTable} {region : Region} {name : Name} {ty : Ty} {base : Base}

namespace Initializer

theorem ends_fit (start : Place) (ty : Ty) (count : Nat) :
    Ends (Fault.Shows table) (fun ty' => ty'.base = ty.base) (fit start ty count) := by
  unfold fit
  split
  · split
    · exact ends_untyped rfl
    · exact ends_pure.mpr rfl
  all_goals exact ends_pure.mpr rfl

theorem ends_checkElement (grounded : table.Grounded) (known : table.Knows ty.base) (expr : Expr) :
    Ends (Fault.Shows table) (fun _ => True) (checkElement table ty expr) := by
  refine (expr.ends_type grounded).bind fun value valueKnown => ?_
  split
  · exact ends_typed [ty, value.ty] rfl (by simpa using ⟨known, valueKnown⟩)
  · exact ends_pure.mpr trivial

theorem ends_checkElements (grounded : table.Grounded) (known : table.Knows ty.base) (args : Args) :
    Ends (Fault.Shows table) (fun _ => True) (checkElements table ty args) := by
  cases args with
  | last expr => exact ends_checkElement grounded known expr
  | more expr comma rest =>
    apply (ends_checkElement grounded known expr).bind
    intro _ _
    exact ends_checkElements grounded known rest

theorem ends_requireArray (opening : Place) (known : table.Knows ty.base) :
    Ends (Fault.Shows table) (fun _ => True) (requireArray table opening ty) := by
  unfold requireArray
  split
  · exact ends_pure.mpr trivial
  · exact ends_typed [ty] rfl (by simpa using known)

/-- An initializer can give an array its size, but it keeps the base type. -/
theorem ends_type (grounded : table.Grounded) (known : table.Knows ty.base) (init : Initializer) :
    Ends (Fault.Shows table) (fun ty' => ty'.base = ty.base) (init.type table ty) := by
  cases init with
  | value expr =>
    refine (expr.ends_type grounded).bind fun source sourceKnown => ?_
    refine ends_unless (fun _ => ?_) fun _ => ?_
    · exact Fault.shows_typeName [ty, source.ty] rfl (by simpa using ⟨known, sourceKnown⟩)
    · split
      · exact ends_fit _ _ _
      · exact ends_pure.mpr rfl
  | elements opening args closing =>
    refine (ends_requireArray opening known).bind fun _ _ => ?_
    have known' : table.Knows ty.element.base := known
    refine (ends_checkElements grounded known' args).bind fun _ _ => ?_
    exact (ends_requireMark .rightBrace closing).bind fun _ _ => ends_fit _ _ _
  | noElements opening closing =>
    exact (ends_requireArray opening known).bind fun _ _ => ends_fit _ _ _

end Initializer

theorem Declarator.ends_type (grounded : table.Grounded) (known : table.Knows base)
    (declarator : Declarator) : Ends (Fault.Shows table) (fun ty => ty.base = base)
      (declarator.type region table name base) := by
  refine declarator.array.ends_extent.bind fun extent _ => ?_
  split
  · exact ends_pure.mpr rfl
  · split
    · exact ends_untyped rfl
    · have known' : table.Knows (Ty.mk base extent).base := known
      exact Initializer.ends_type grounded known' _

theorem SymbolTable.structAt?_declare {symbol : Symbol}
    (declared : (table.declare name symbol).Gives table') (isStruct : symbol.cls = .struct) :
    table'.structAt? table.size = some symbol := by
  obtain ⟨-, rfl⟩ := gives_declare.mp declared
  exact structAt?_iff.mpr ⟨List.getElem?_concat_length, isStruct⟩

theorem SymbolTable.refuses_declare (name : Name) (symbol : Symbol) :
    Refuses (Fault.Shows table) (table.declare name symbol) := by
  unfold declare redefined
  split
  · exact refuses_pure _
  · exact refuses_violate.mpr (Fault.shows_of_types_eq_nil rfl)

theorem Region.refuses_shows (region : Region) (name : Name) (ty : Ty) :
    Refuses (Fault.Shows table) (region.declare table name ty) := by
  cases region with
  | topLevel | body => exact SymbolTable.refuses_declare _ _
  | members index struct =>
    simp only [Region.declare, redefined]
    split
    · exact refuses_violate.mpr (Fault.shows_of_types_eq_nil rfl)
    · split
      · exact refuses_violate.mpr (Fault.shows_of_types_eq_nil rfl)
      · exact refuses_pure _

/-- A variable or member is declared with a known type, and all structs stay. -/
theorem Region.later_declare (grounded : table.Grounded) (known : table.Knows ty.base)
    (declared : (region.declare table name ty).Gives table') :
    table'.Grounded ∧ table.Keeps table' := by
  have symbols := Region.symbols_declare declared
  cases region with
  | topLevel | body =>
    have keeps := SymbolTable.keeps_of_append symbols.2
    refine ⟨grounded.append symbols.2 ?_, keeps⟩
    simpa [Symbol.types, variableSymbol] using known.keep keeps
  | members index struct =>
    have keeps := SymbolTable.keeps_of_modify symbols (fun _ => rfl) fun _ => List.prefix_append _ _
    refine ⟨grounded.modify symbols keeps fun owner ty' mem => ?_, keeps⟩
    simp only [Symbol.types, ← List.append_assoc, List.map_append, List.map_cons, List.map_nil,
      ← List.cons_append] at mem ⊢
    rcases List.mem_append.mp mem with old | new
    · exact .inl old
    · obtain rfl := List.mem_singleton.mp new
      exact .inr (known.keep keeps)

theorem Declarator.ends_declare (grounded : table.Grounded) (known : table.Knows base)
    (declarator : Declarator) :
    Ends (Fault.Shows table) (fun table' => table'.Grounded ∧ table.Keeps table')
      (declarator.declare region base table) := by
  refine (ends_require .variableName declarator.name).bind fun name _ => ?_
  refine (declarator.ends_type grounded known).bind fun ty same => ?_
  refine ⟨region.refuses_shows name ty, fun table' declared => ?_⟩
  exact Region.later_declare grounded (same ▸ known) declared

end

/-! ### Statements -/

section

variable {table : SymbolTable} (grounded : table.Grounded)

include grounded

theorem Expr.ends_checkTested (expr : Expr) :
    Ends (Fault.Shows table) (fun _ => True) (expr.checkTested table) := by
  refine (expr.ends_type grounded).bind fun value _ => ?_
  refine ends_unless (fun _ => Fault.shows_of_types_eq_nil rfl) fun _ => ?_
  split
  · exact ends_untyped rfl
  · exact ends_pure.mpr trivial

theorem Expr.ends_checkUnused (expr : Expr) :
    Ends (Fault.Shows table) (fun _ => True) (expr.checkUnused table) :=
  (expr.ends_type grounded).bind fun _ _ => ends_pure.mpr trivial

theorem Condition.ends_check (condition : Condition) :
    Ends (Fault.Shows table) (fun _ => True) (condition.check table) :=
  (ends_requireMark _ _).bind fun _ _ =>
    (condition.expr.ends_checkTested grounded).bind fun _ _ => ends_requireMark _ _

omit grounded in
theorem ends_optional {check : Expr → Checked Unit}
    (ends : ∀ expr, Ends (Fault.Shows table) (fun _ => True) (check expr)) (value : Option Expr) :
    Ends (Fault.Shows table) (fun _ => True) (value.forM check) := by
  cases value with
  | none => exact ends_pure.mpr trivial
  | some expr => exact ends expr

theorem ForHeader.ends_check (header : ForHeader) :
    Ends (Fault.Shows table) (fun _ => True) (header.check table) := by
  refine (ends_requireMark _ _).bind fun _ _ => ?_
  refine (ends_optional (Expr.ends_checkUnused grounded) header.first).bind fun _ _ => ?_
  refine (ends_requireMark _ _).bind fun _ _ => ?_
  refine (ends_optional (Expr.ends_checkTested grounded) header.condition).bind fun _ _ => ?_
  refine (ends_requireMark _ _).bind fun _ _ => ?_
  refine (ends_optional (Expr.ends_checkUnused grounded) header.step).bind fun _ _ => ?_
  exact ends_requireMark _ _

theorem FunctionScope.ends_checkReturn {scope : FunctionScope}
    (known : table.Knows scope.result.base) (word : Place) (value : Option Expr) :
    Ends (Fault.Shows table) (fun _ => True) (scope.checkReturn table word value) := by
  cases value with
  | none =>
    simp only [checkReturn]
    split
    · exact ends_pure.mpr trivial
    · exact ends_typed [scope.result] rfl (by simpa using known)
  | some expr =>
    refine (expr.ends_type grounded).bind fun value valueKnown => ?_
    refine ends_unless (fun _ => Fault.shows_of_types_eq_nil rfl) fun _ => ?_
    split
    · exact ends_typed [value.ty, scope.result] rfl (by simpa using ⟨valueKnown, known⟩)
    · exact ends_pure.mpr trivial

omit grounded in
theorem VarDecl.ends_enter (decl : VarDecl) :
    Ends (Fault.Shows table) (fun pending => table.Knows pending.base) (decl.enter table) :=
  decl.base.ends_resolve.bind fun _ known => ends_pure.mpr known

end

namespace Machine

/-! ### Steps -/

/-! Where nothing is underway, and outside of structs and functions, there is nothing to know. -/

theorem forall_none {α : Type} {P : α → Prop} : ∀ a, (none : Option α) = some a → P a := by
  rintro a ⟨⟩

theorem forall_none_pair {α β : Type} {P : α → β → Prop} :
    ∀ a b, (none : Option (α × β)) = some (a, b) → P a b := by
  rintro a b ⟨⟩

/-- The struct that the machine is in: its index and its name. -/
def Context.struct? : Context → Option (Nat × String)
  | struct index name _ _ _ _ => some (index, name)
  | global _ | params .. | body .. => none

/-- The struct that the machine is in is declared, and all structs are known in the types of the
state: those of its symbols, of the declaration that is underway, and of the result of the function
that the machine is in. -/
structure State.Grounded (s : State) : Prop where
  table : s.table.Grounded
  owner : ∀ index name, s.context.struct? = some (index, name) →
    ∃ struct, s.table.structAt? index = some struct ∧ struct.name = name
  pending : ∀ pending, s.context.pending = some pending → s.table.Knows pending.base
  result : ∀ index scope, s.context.function? = some (index, scope) →
    s.table.Knows scope.result.base

/-- What comes behind a state: its structs are known, and all structs of the state are there. -/
def State.Follows (s s' : State) : Prop :=
  s'.Grounded ∧ s.table.Keeps s'.table

section

variable {table : SymbolTable}

theorem Pending.ends_step (grounded : table.Grounded) {pending : Pending}
    (known : table.Knows pending.base) (region : Region) :
    Ends (Fault.Shows table) (fun next => next.2.Grounded ∧ table.Keeps next.2 ∧
      ∀ pending, next.1 = some pending → next.2.Knows pending.base)
      (pending.step region table) := by
  unfold Pending.step
  split
  · exact (ends_requireMark _ _).bind fun _ _ =>
      ends_pure.mpr ⟨grounded, SymbolTable.Keeps.refl table, forall_none⟩
  · rename_i declarator declarators _
    refine (declarator.ends_declare grounded known).bind fun table' ⟨grounded', keeps⟩ => ?_
    refine ends_pure.mpr ⟨grounded', keeps, ?_⟩
    rintro _ ⟨⟩
    exact known.keep keeps

theorem Task.ends_step (grounded : table.Grounded) {scope : FunctionScope}
    (known : table.Knows scope.result.base) (task : Task) :
    Ends (Fault.Shows table) (fun next => ∀ pending, next.1 = some pending →
      table.Knows pending.base) (task.step scope table) := by
  have idle (tasks : List Task) : Ends (Fault.Shows table)
      (fun next : Option Pending × List Task => ∀ pending, next.1 = some pending →
        table.Knows pending.base) (pure (none, tasks)) := ends_pure.mpr forall_none
  cases task with
  | items loops items =>
    cases items with
    | nil | stmt => exact idle _
    | decl decl rest =>
      refine decl.ends_enter.bind fun pending known => ends_pure.mpr ?_
      rintro _ ⟨⟩
      exact known
  | endBlock closing => exact (ends_requireMark _ _).bind fun _ _ => idle _
  | stmt loops stmt =>
    cases stmt with
    | block => exact idle _
    | ifThen word condition | ifElse word condition | whileLoop word condition =>
      exact (condition.ends_check grounded).bind fun _ _ => idle _
    | forLoop word header => exact (header.ends_check grounded).bind fun _ _ => idle _
    | breakLoop word semicolon =>
      refine Ends.bind (Q := fun _ => True) ?_ fun _ _ => idle _
      simp only [Stmt.check]
      refine ends_unless (fun _ => Fault.shows_of_types_eq_nil rfl) fun _ => ?_
      exact (ends_requireMark _ _).bind fun _ _ => ends_pure.mpr trivial
    | returnValue word value semicolon =>
      refine Ends.bind (Q := fun _ => True) ?_ fun _ _ => idle _
      simp only [Stmt.check]
      refine (FunctionScope.ends_checkReturn grounded known word value).bind fun _ _ => ?_
      exact (ends_requireMark _ _).bind fun _ _ => ends_pure.mpr trivial
    | empty semicolon =>
      refine Ends.bind (Q := fun _ => True) ?_ fun _ _ => idle _
      simp only [Stmt.check]
      exact ends_pure.mpr trivial
    | expr expr semicolon =>
      refine Ends.bind (Q := fun _ => True) ?_ fun _ _ => idle _
      simp only [Stmt.check]
      refine (expr.ends_checkUnused grounded).bind fun _ _ => ?_
      exact (ends_requireMark _ _).bind fun _ _ => ends_pure.mpr trivial
    | missing instead =>
      refine Ends.bind (Q := fun _ => True) ?_ fun _ _ => idle _
      simp only [Stmt.check]
      exact ends_unexpected

/-- A symbol at the top level: what a step declares there is known, if its type is. -/
theorem later_declare {table' : SymbolTable} (grounded : table.Grounded) {name : Name}
    {symbol : Symbol} (declared : (table.declare name symbol).Gives table')
    (known : table.Keeps table' → ∀ ty ∈ symbol.types, table'.Knows ty.base) :
    table'.Grounded ∧ table.Keeps table' := by
  have symbols : table'.symbols = table.symbols ++ [symbol] := by
    rw [(SymbolTable.gives_declare.mp declared).2]
  have keeps := SymbolTable.keeps_of_append symbols
  exact ⟨grounded.append symbols (known keeps), keeps⟩

theorem ends_declareParam (grounded : table.Grounded) (index depth : Nat) (slot : Slot Param) :
    Ends (Fault.Shows table) (fun table' => table'.Grounded ∧ table.Keeps table')
      (Param.declare index depth table slot) := by
  refine (ends_require .parameterType slot).bind fun param _ => ?_
  refine param.base.ends_resolve.bind fun base known => ?_
  refine (ends_require .parameterName param.name).bind fun name _ => ?_
  refine param.array.ends_extent.bind fun extent _ => ?_
  let symbol := Param.symbol depth name base extent
  refine ⟨(SymbolTable.refuses_declare name symbol).bind fun _ _ => refuses_pure _, ?_⟩
  intro table'' given
  obtain ⟨table', declared, added⟩ := gives_bind.mp given
  obtain rfl := gives_pure.mp added
  obtain ⟨grounded', keeps⟩ := later_declare grounded declared fun keeps ty mem => by
    obtain rfl := List.mem_singleton.mp mem
    exact known.keep keeps
  have symbols := SymbolTable.symbols_addArg table' index symbol
  have keeps' : table'.Keeps (table'.addArg index symbol) :=
    SymbolTable.keeps_of_modify symbols (fun _ => rfl) fun _ => List.prefix_refl _
  refine ⟨grounded'.modify symbols keeps' fun function ty mem => ?_, keeps.trans keeps'⟩
  simp only [Symbol.types, List.map_append, List.map_cons, List.map_nil, List.mem_cons,
    List.mem_append, List.not_mem_nil, or_false] at mem ⊢
  rcases mem with own | (arg | rfl) | member
  · exact .inl (.inl own)
  · exact .inl (.inr (.inl arg))
  · exact .inr ((known.keep keeps).keep keeps')
  · exact .inl (.inr (.inr member))

theorem ends_resolveResult (result : ResultType) :
    Ends (Fault.Shows table) (fun ty => table.Knows ty.base) (result.resolve table) := by
  cases result with
  | void word => exact ends_pure.mpr (SymbolTable.knows_of_ne nofun)
  | value base | array base star =>
    exact base.ends_resolve.bind fun _ known => ends_pure.mpr known

theorem ends_noteStruct (base : BaseName) :
    Ends (Fault.Shows table) (fun _ => True) base.noteStruct := by
  unfold BaseName.noteStruct backtracked
  split
  · exact ends_write _
  · exact ends_pure.mpr trivial

theorem ends_noteResult (result : ResultType) :
    Ends (Fault.Shows table) (fun _ => True) result.noteStruct := by
  cases result with
  | void => exact ends_pure.mpr trivial
  | value base | array base => exact ends_noteStruct base

theorem ends_noteFunction (tried : Nat) (start : Place) :
    Ends (Fault.Shows table) (fun _ => True) (noteFunction tried start) := by
  unfold noteFunction backtracked
  split
  · exact ends_pure.mpr trivial
  · exact ends_write _

end

variable {s : State}

theorem State.ends_enter (grounded : s.table.Grounded) (decl : Decl) :
    Ends (Fault.Shows s.table) s.Follows (s.enter decl) := by
  cases decl with
  | struct word name opening members closing semicolon =>
    simp only [State.enter]
    split
    · exact ends_untyped rfl
    · refine ⟨(SymbolTable.refuses_declare _ _).bind fun _ _ => refuses_pure _, fun s' given => ?_⟩
      obtain ⟨table', declared, added⟩ := gives_bind.mp given
      obtain rfl := gives_pure.mp added
      -- the struct is the declaration of its own type
      obtain ⟨grounded', keeps⟩ := later_declare grounded declared fun _ ty mem => by
        obtain rfl := List.mem_singleton.mp mem
        exact SymbolTable.knows_of_structAt? (SymbolTable.structAt?_declare declared rfl)
      refine ⟨⟨grounded', ?_, forall_none, forall_none_pair⟩, keeps⟩
      rintro index name ⟨⟩
      exact ⟨_, SymbolTable.structAt?_declare declared rfl, rfl⟩
  | function result name opening params closing body =>
    refine (ends_noteResult result).bind fun _ _ => ?_
    refine (ends_resolveResult result).bind fun ty known => ?_
    refine ⟨(SymbolTable.refuses_declare _ _).bind fun _ _ => refuses_pure _, fun s' given => ?_⟩
    obtain ⟨table', declared, added⟩ := gives_bind.mp given
    obtain rfl := gives_pure.mp added
    obtain ⟨grounded', keeps⟩ := later_declare grounded declared fun keeps ty' mem => by
      obtain rfl := List.mem_singleton.mp mem
      exact known.keep keeps
    refine ⟨⟨grounded', forall_none_pair, forall_none, ?_⟩, keeps⟩
    rintro index scope ⟨⟩
    exact known.keep keeps
  | vars tried decl =>
    refine (ends_noteStruct decl.base).bind fun _ _ => ?_
    refine decl.base.ends_resolve.bind fun _ _ => ?_
    refine (ends_noteFunction tried decl.base.start).bind fun _ _ => ?_
    refine decl.ends_enter.bind fun pending known => ends_pure.mpr ?_
    refine ⟨⟨grounded, forall_none_pair, ?_, forall_none_pair⟩, SymbolTable.Keeps.refl _⟩
    rintro _ ⟨⟩
    exact known
  | missing tried instead =>
    exact (ends_noteFunction tried instead.place).bind fun _ _ => ends_unexpected

/-- A struct stands in front of the function that the machine is in. -/
theorem Invariant.struct_lt {past : List Declaration} {index : Nat} {scope : FunctionScope}
    {symbols : List Symbol} {functions : Nat}
    (inv : Invariant past ⟨.body index scope, symbols, functions⟩) {place : Nat} {struct : Symbol}
    (found : symbols[place]? = some struct) (isStruct : struct.cls = .struct) :
    place < index + 1 := by
  obtain ⟨globals, own, rfl, -, -, -, -, function, locals, isFunction, rfl, areLocal⟩ := inv.split
  obtain ⟨before, rfl, rfl⟩ := isFunction.last
  apply Nat.lt_of_not_le
  intro behind
  have length : (SymbolTable.externals ++ (before ++ [function])).length ≤ place := by
    simpa [Nat.add_assoc] using behind
  rw [List.getElem?_append_right length] at found
  have isVar : struct.cls = .var := by
    rcases List.mem_append.mp (List.mem_of_getElem? found) with isArg | isLocal
    · exact (isFunction.args struct isArg).1
    · exact (areLocal struct isLocal).1
  cases isStruct.symm.trans isVar

/-- A state with the same table and nothing underway follows, if the machine stays in its function
or leaves it. -/
theorem State.Grounded.same_table (grounded : s.Grounded) {s' : State}
    (table : s'.table = s.table)
    (owner : ∀ index name, s'.context.struct? = some (index, name) →
      s.context.struct? = some (index, name))
    (pending : ∀ pending, s'.context.pending = some pending → s.table.Knows pending.base)
    (function : ∀ index scope, s'.context.function? = some (index, scope) →
      s.context.function? = some (index, scope)) : s.Follows s' := by
  refine ⟨⟨table ▸ grounded.table, ?_, ?_, ?_⟩, table ▸ SymbolTable.Keeps.refl _⟩
  · rw [table]
    exact fun index name inside => grounded.owner index name (owner index name inside)
  · rw [table]
    exact pending
  · rw [table]
    exact fun index scope inside => grounded.result index scope (function index scope inside)

theorem State.ends_proceed {past : List Declaration} (grounded : s.Grounded)
    (inv : Invariant past s.core) (none : s.context.pending = none) :
    Ends (Fault.Shows s.table) s.Follows s.proceed := by
  obtain ⟨context, table, functions, decls⟩ := s
  cases context with
  | global pending =>
    obtain rfl : pending = .none := none
    cases decls with
    | nil => exact ends_pure.mpr ⟨grounded, SymbolTable.Keeps.refl _⟩
    | cons decl decls =>
      exact State.ends_enter (s := ⟨.global .none, table, functions, decls⟩) grounded.table decl
  | struct index name pending members closing semicolon =>
    obtain rfl : pending = .none := none
    cases members with
    | nil =>
      refine (ends_requireMark _ _).bind fun _ _ => (ends_requireMark _ _).bind fun _ _ => ?_
      exact ends_pure.mpr (grounded.same_table rfl forall_none_pair forall_none forall_none_pair)
    | cons decl members =>
      refine decl.ends_enter.bind fun pending known => ends_pure.mpr ?_
      refine grounded.same_table rfl (fun _ _ inside => inside) ?_ forall_none_pair
      rintro _ ⟨⟩
      exact known
  | params index scope params closing body =>
    cases params with
    | nil =>
      refine (ends_requireMark _ _).bind fun _ _ => (ends_require _ _).bind fun block _ => ?_
      exact ends_pure.mpr (grounded.same_table rfl forall_none_pair forall_none fun _ _ inside => inside)
    | cons slot params =>
      refine (ends_declareParam grounded.table index scope.depth slot).bind ?_
      intro table' ⟨grounded', keeps⟩
      refine ends_pure.mpr ⟨⟨grounded', forall_none_pair, forall_none, fun index scope inside => ?_⟩, keeps⟩
      exact (grounded.result index scope inside).keep keeps
  | body index scope pending tasks closing =>
    obtain rfl : pending = .none := none
    cases tasks with
    | nil =>
      refine (ends_requireMark _ _).bind fun _ _ => ends_pure.mpr ?_
      -- inside of a function no struct is declared, so leaving it takes none away
      have keeps : table.Keeps (table.truncate (index + 1)) := by
        refine SymbolTable.keeps_of_take (SymbolTable.symbols_truncate _ _) ?_
        intro place struct found
        obtain ⟨inside, isStruct⟩ := SymbolTable.structAt?_iff.mp found
        exact inv.struct_lt inside isStruct
      exact ⟨⟨grounded.table.take (SymbolTable.symbols_truncate _ _) keeps, forall_none_pair,
        forall_none, forall_none_pair⟩, keeps⟩
    | cons task tasks =>
      have known := grounded.result index scope rfl
      refine (task.ends_step grounded.table known).bind fun next nextKnown => ends_pure.mpr ?_
      exact grounded.same_table rfl forall_none_pair nextKnown fun _ _ inside => inside

theorem pending_setPending {context : Context} {next : Option Pending} {pending : Pending}
    (underway : (context.setPending next).pending = some pending) : next = some pending := by
  cases context with
  | params => cases underway
  | global | struct | body => exact underway

theorem struct?_setPending (context : Context) (pending : Option Pending) :
    (context.setPending pending).struct? = context.struct? := by
  cases context <;> rfl

theorem function?_setPending (context : Context) (pending : Option Pending) :
    (context.setPending pending).function? = context.function? := by
  cases context <;> rfl

/-- One step keeps all structs, and the types in what it declares and in its messages are known. -/
theorem State.ends_step {past : List Declaration} (grounded : s.Grounded)
    (inv : Invariant past s.core) : Ends (Fault.Shows s.table) s.Follows s.step := by
  unfold State.step
  split
  · rename_i pending underway
    have known := grounded.pending pending underway
    refine (pending.ends_step grounded.table known s.context.region).bind ?_
    intro next ⟨grounded', keeps, nextKnown⟩
    refine ends_pure.mpr ⟨⟨grounded', ?_, fun pending' underway' => ?_, ?_⟩, keeps⟩
    · intro index name inside
      rw [struct?_setPending] at inside
      obtain ⟨struct, found, rfl⟩ := grounded.owner index name inside
      obtain ⟨struct', found', entry, -⟩ := keeps index struct found
      exact ⟨struct', found', congrArg Entry.name entry⟩
    · exact nextKnown pending' (pending_setPending underway')
    · intro index scope inside
      rw [function?_setPending] at inside
      exact (grounded.result index scope inside).keep keeps
  · rename_i none
    exact State.ends_proceed grounded inv none

end Machine

end PlainC
