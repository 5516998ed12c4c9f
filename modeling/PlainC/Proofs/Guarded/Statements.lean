import PlainC.Proofs.Guarded.Following

set_option autoImplicit false

/-!
Variables and statements. The elements of an initializer and the loops around a statement are fewer
than the tokens in front of them, and what is declared leaves all other symbols in their places.
-/

namespace PlainC

/-! ### Symbols in their places -/

namespace SymbolTable

variable {table table' : SymbolTable} {symbol : Symbol} {index : Nat}

theorem length_heads (table : SymbolTable) : table.heads.length = table.size :=
  List.length_map _

theorem heads_of_add (added : table.add symbol = (.ok index, table')) :
    index = table.size ∧ table'.heads = table.heads ++ [symbol.head] := by
  unfold add at added
  dsimp only at added
  split at added
  · cases added
  · obtain ⟨same, rfl⟩ := Prod.mk.inj added
    refine ⟨?_, ?_⟩
    · rw [← Except.ok.inj same, size, symbols_internAll, size]
    · rw [heads, heads, symbols_internAll, List.map_append, List.map_singleton]

/-- What is changed in its place has the same head. -/
theorem heads_modify {change : Symbol → Symbol}
    (same : ∀ symbol, (change symbol).head = symbol.head) (table : SymbolTable) (index : Nat) :
    (table.modify index change).heads = table.heads := by
  rw [heads, modify, heads]
  generalize table.symbols = symbols
  induction symbols generalizing index with
  | nil => rw [List.modify_nil]
  | cons symbol symbols ih => cases index <;> simp [same, ih]

theorem heads_internAll (table : SymbolTable) (names : List String) :
    (table.internAll names).heads = table.heads := by
  rw [heads, symbols_internAll, heads]

theorem heads_addMember (table : SymbolTable) (index : Nat) (member : Symbol) :
    (table.addMember index member).heads = table.heads := by
  rw [addMember, heads_modify, heads_internAll]
  exact fun _ => rfl

theorem heads_addArg (table : SymbolTable) (index : Nat) (arg : Symbol) :
    (table.addArg index arg).heads = table.heads := by
  rw [addArg, heads_modify, heads_internAll]
  exact fun _ => rfl

/-- The symbol in the place of a head. -/
theorem get?_of_heads {opened : Symbol} (found : table.heads[index]? = some opened) :
    ∃ symbol, table.get? index = some symbol ∧ symbol.head = opened := by
  rw [heads, List.getElem?_map] at found
  exact Option.map_eq_some_iff.mp found

end SymbolTable

namespace Guarded

open Cursor (Barrier Clear taken)
open Cursor.Parser (check store update)

variable {tape : List Lexeme} {k : Nat} {last : Lexeme} {loops : Nat} {s s' : State} {α : Type}

/-! ### Declaring -/

theorem settle_of_error {rule : Checked α} {fault : Fault} (fails : rule.result = .error fault)
    (c : Cursor.State) : (Cursor.Walk.settle rule : Cursor.Parser α) tape c =
      ⟨[], .error (.fault fault)⟩ := by
  rw [Cursor.Walk.settle, fails]

theorem store_of_error {rule : SymbolTable → Checked SymbolTable} {fault : Fault}
    {c : Cursor.State} (fails : (rule c.memory.table).result = .error fault) :
    store rule tape c = ⟨[], .error (.fault fault)⟩ := by
  change (Cursor.Walk.settle (rule c.memory.table) tape c).andThen _ = _
  rw [settle_of_error fails]
  rfl

theorem store_of_ok {rule : SymbolTable → Checked SymbolTable} {table : SymbolTable}
    (gives : (rule s.table).result = .ok table) :
    store rule tape s.cursor = ⟨[], .ok ((), State.cursor { s with table })⟩ := by
  change (Cursor.Walk.settle (rule s.table) tape s.cursor).andThen _ = _
  rw [Cursor.Walk.settle, gives]
  rfl

theorem lift_of_error {rule : Checked α} {fault : Fault} (fails : rule.result = .error fault) :
    Parser.lift (Cursor.Walk.settle rule) tape s = ⟨[], .ok (.error fault, s)⟩ := by
  rw [Parser.lift, settle_of_error fails]
  rfl

theorem declare_apply (name : Name) (symbol : Symbol) :
    Parser.declare name symbol tape s = (match s.table.add symbol with
      | (.ok index, table) => do
        Parser.update fun s => { s with table }
        return index
      | (.error previous, _) => Parser.lift (Cursor.Walk.settle
          (Checked.redefined name previous.previousLine))) tape s := rfl

/-- A name that is taken is refused on both sides. -/
theorem declare_of_taken (tape : List Lexeme) (name : Name) {symbol : Symbol}
    {previous : Redefinition} {table : SymbolTable}
    (taken : s.table.add symbol = (.error previous, table)) :
    ∃ fault, Parser.declare name symbol tape s = ⟨[], .ok (.error fault, s)⟩ ∧
      store (fun table => table.declare name symbol) tape s.cursor =
        ⟨[], .error (.fault fault)⟩ := by
  have refused : s.table.declare name symbol =
      Checked.redefined name previous.previousLine := by
    rw [SymbolTable.declare, taken]
  refine ⟨⟨.violation (.redefinition name.value previous.previousLine), name.place⟩, ?_, ?_⟩
  · rw [declare_apply, taken]
    exact lift_of_error rfl
  · refine store_of_error ?_
    change (s.table.declare name symbol).result = _
    rw [refused]
    rfl

/-- A name that is free is declared on both sides. -/
theorem declare_of_free (tape : List Lexeme) (name : Name) {symbol : Symbol} {index : Nat}
    {table : SymbolTable} (free : s.table.add symbol = (.ok index, table)) :
    Parser.declare name symbol tape s = ⟨[{ s with table }], .ok (.ok index, { s with table })⟩ ∧
      store (fun table => table.declare name symbol) tape s.cursor =
        ⟨[], .ok ((), State.cursor { s with table })⟩ := by
  refine ⟨?_, store_of_ok ?_⟩
  · rw [declare_apply, free]
    rfl
  · rw [SymbolTable.declare, free]
    rfl

/-- A symbol has been appended. -/
theorem State.Fit.declared (fit : s.Fit tape loops) {table : SymbolTable} {head : Symbol}
    (heads : table.heads = s.table.heads ++ [head]) : s.Reaches tape loops 0 { s with table } := by
  refine fit.changed ?_
  rw [heads]
  exact List.prefix_append _ _

/-- A declaration that is accepted appends its symbol. -/
theorem follows_declare {name : Name} {symbol : Symbol} {next : Nat → Parser α}
    {next' : Unit → Cursor.Parser α} {post : α → State → Prop} (fit : s.Fit tape loops)
    (second : ∀ table : SymbolTable, table.heads = s.table.heads ++ [symbol.head] →
      Follows tape loops (next s.table.size tape { s with table })
        (next' () tape (State.cursor { s with table })) post) :
    Follows tape loops ((Parser.declare name symbol >>= next) tape s)
      ((store (fun table => table.declare name symbol) >>= next') tape s.cursor) post := by
  change Follows tape loops _
    ((store (fun table => table.declare name symbol) tape s.cursor).andThen _) post
  rcases added : s.table.add symbol with ⟨previous | index, table⟩
  · obtain ⟨fault, run, other⟩ := declare_of_taken tape name added
    rw [Parser.bind_of_fault run, other]
    exact fun _ => ⟨List.forall_mem_nil _, .inl ⟨fault, s, rfl, rfl, fit⟩⟩
  · obtain ⟨run, other⟩ := declare_of_free tape name added
    obtain ⟨rfl, heads⟩ := SymbolTable.heads_of_add added
    rw [Parser.bind_of_value run, other]
    intro settles
    obtain ⟨visited, result⟩ := second table heads settles
    refine ⟨?_, result⟩
    rw [List.singleton_append]
    exact List.forall_mem_cons.mpr ⟨(fit.declared heads).fit.self, visited⟩

/-- A declaration behind which nothing else is done. -/
theorem follows_declared {name : Name} {symbol : Symbol} (fit : s.Fit tape loops) :
    Follows tape loops ((do let _ ← Parser.declare name symbol : Parser Unit) tape s)
      (store (fun table => table.declare name symbol) tape s.cursor)
      fun _ s' => s.Reaches tape loops 0 s' := by
  have alone : ∀ (parser : Cursor.Parser Unit) (c : Cursor.State),
      (parser >>= fun _ => pure ()) tape c = parser tape c := by
    intro parser c
    change (parser tape c).andThen _ = _
    rcases parser tape c with ⟨events, stop | ⟨⟨⟩, c'⟩⟩
    · rfl
    · simp [Cursor.Run.andThen, pure]
  rw [← alone (store _) s.cursor]
  refine follows_declare fit ?_
  intro table heads
  exact follows_pure (fit.declared heads)

/-- Both sides refuse for the same reason. -/
theorem follows_refused {rule : Checked Unit} {rule' : SymbolTable → Checked SymbolTable}
    {fault : Fault} {post : Unit → State → Prop} (fit : s.Fit tape loops)
    (fails : rule.result = .error fault) (fails' : (rule' s.table).result = .error fault) :
    Follows tape loops (Parser.lift (check fun _ => rule) tape s) (store rule' tape s.cursor)
      post := by
  have lifted : Parser.lift (check fun _ => rule) tape s = ⟨[], .ok (.error fault, s)⟩ :=
    lift_of_error fails
  rw [lifted, store_of_error fails']
  exact fun _ => ⟨List.forall_mem_nil _, .inl ⟨fault, s, rfl, rfl, fit⟩⟩

/-- A member of the struct that is open, which is in the table. -/
theorem follows_declareMember {index : Nat} {opened : Symbol} {name : Name} {ty : Ty}
    (fit : s.Fit tape loops) (inside : s.context = .struct index opened) :
    Follows tape loops
      (Parser.declareMember index name ty (s.context.region.variableSymbol name ty) tape s)
      (store (fun table => s.context.region.declare table name ty) tape s.cursor)
      fun _ s' => s.Reaches tape loops 0 s' := by
  have isOpen := fit.opened
  rw [inside] at isOpen
  obtain ⟨owner, found, rfl⟩ := SymbolTable.get?_of_heads isOpen.1
  rw [inside]
  refine follows_look ?_
  by_cases itself : ty.base = .struct index
  · rw [if_pos itself, found]
    refine follows_refused fit rfl ?_
    simp only [Context.region, Region.declare, if_pos itself]
    rfl
  · rw [if_neg itself, found]
    dsimp only
    cases taken : owner.member? name.value with
    | some previous =>
      refine follows_refused fit rfl ?_
      simp only [Context.region, Region.declare, if_neg itself, found, Option.bind_some, taken]
      rfl
    | none =>
      have kept := SymbolTable.heads_addMember s.table index
        ((Region.members index owner.head.name).variableSymbol name ty)
      have reached := fit.changed ⟨[], (List.append_nil _).trans kept.symm⟩
      rw [store_of_ok]
      · intro _
        exact ⟨List.forall_mem_singleton.mpr reached.fit.self, .inr ⟨(), _, rfl, rfl, reached⟩⟩
      · simp only [Context.region, Region.declare, if_neg itself, found, Option.bind_some, taken]
        rfl

section

variable (barrier : Barrier tape k last) (short : tape.length < counterBound)

theorem State.Fit.position_lt (fit : s.Fit tape loops) (barrier : Barrier tape k last)
    (short : tape.length < counterBound) : s.position < counterBound := by
  have le := Clear.le barrier fit.clear
  have length := barrier.length
  omega

include barrier

/-! ### Variables -/

theorem follows_commas {item : Parser Unit} {item' : Cursor.Parser Unit}
    (items : ∀ s, s.Fit tape loops → Follows tape loops (item tape s) (item' tape s.cursor)
      fun _ s' => s.Reaches tape loops 0 s') {count : Nat}
    (reached : s.Reaches tape loops count s') :
    Follows tape loops (Parser.commas item tape s') (Cursor.Parser.commas item' tape s'.cursor)
      fun _ s'' => s.Reaches tape loops count s'' := by
  have further : ∀ s₁, s.Reaches tape loops count s₁ →
      Follows tape loops (item tape s₁) (item' tape s₁.cursor)
        fun _ s₂ => s.Reaches tape loops count s₂ :=
    fun s₁ here => (items s₁ here.fit).mono fun _ _ => here.trans
  refine (further s' reached).bind ?_
  intro _ s₁ first
  refine follows_bounded fun fuel => ?_
  refine follows_repeating (fun s' => s.Reaches tape loops count s') ?_ ?_ fuel () s₁ first
  · intro s₂ here
    refine (follows_lift barrier (Cursor.steady_mark? _) here).mono ?_
    intro found s₃ next
    exact next.mono (Nat.le_add_right _ _)
  · intro _ _ s₂ here
    exact further s₂ here

include short

/-- The elements so far are fewer than the tokens in front of the next one. -/
theorem follows_elements (element : Ty) : ∀ fuel given s, s.Fit tape loops → given < s.position →
    Follows tape loops (Parser.elements element fuel given tape s)
      (Cursor.Parser.arguments Cursor.Parser.expression (OnePass.acceptElement element) fuel given
        tape s.cursor) fun _ s' => s.Reaches tape loops 0 s' := by
  intro fuel
  induction fuel with
  | zero => exact fun _ _ _ _ => follows_cutOff
  | succ fuel ih =>
    intro given s fit few
    refine (follows_lift barrier Cursor.steady_current (.refl fit)).bind ?_
    intro start s₁ reached
    refine (follows_lift barrier Cursor.steady_expression reached).bind ?_
    intro value s₂ reached
    refine (follows_lift barrier (Cursor.steady_check _) reached).bind ?_
    intro _ s₃ reached
    have far := reached.far
    have below := reached.fit.position_lt barrier short
    refine follows_countUp (by omega) ?_
    refine (follows_lift barrier (Cursor.steady_mark? _) reached).bind ?_
    rintro (_ | comma) s₄ reached
    · exact follows_pure reached.forget
    · have far := reached.far
      rw [taken, Option.isSome_some, if_pos rfl] at far
      refine (ih (given + 1) s₄ reached.fit (by omega)).mono ?_
      intro _ s₅ rest
      exact (reached.trans rest).forget

theorem follows_initializer (ty : Ty) {count : Nat} (reached : s.Reaches tape loops count s') :
    Follows tape loops (Parser.initializer ty tape s')
      (Cursor.Parser.initializer ty tape s'.cursor) fun _ s'' => s.Reaches tape loops 0 s'' := by
  refine (follows_lift barrier (Cursor.steady_mark? _) reached).bind ?_
  rintro (_ | opening) s₁ reached
  · refine (follows_lift barrier Cursor.steady_current reached).bind ?_
    intro start s₂ reached
    refine (follows_lift barrier Cursor.steady_expression reached).bind ?_
    intro source s₃ reached
    exact follows_lift_last barrier (Cursor.steady_check _) reached
  · refine (follows_lift barrier (Cursor.steady_check _) reached).bind ?_
    intro _ s₂ reached
    refine (follows_lift barrier (Cursor.steady_mark? _) reached).bind ?_
    rintro (_ | closing) s₃ reached
    · have far := reached.far
      rw [taken, Option.isSome_some, if_pos rfl] at far
      have elements : ∀ fuel, Follows tape loops (Parser.elements ty.element fuel 0 tape s₃) _ _ :=
        fun fuel => follows_elements barrier short ty.element fuel 0 s₃ reached.fit (by omega)
      refine (follows_bounded elements).bind ?_
      intro given s₄ rest
      have reached := reached.trans rest
      refine (follows_lift barrier (Cursor.steady_expect _) reached).bind ?_
      intro _ s₅ reached
      exact follows_lift_last barrier (Cursor.steady_check _) reached
    · exact follows_lift_last barrier (Cursor.steady_check _) reached

theorem follows_initialized (name : Name) (ty : Ty) (fit : s.Fit tape loops) :
    Follows tape loops (Parser.initialized name ty tape s)
      (Cursor.Parser.initialized s.context.region name ty tape s.cursor)
      fun _ s' => s.Reaches tape loops 0 s' := by
  refine (follows_lift barrier (Cursor.steady_operator? _) (.refl fit)).bind ?_
  rintro (_ | op) s₁ reached
  · exact follows_pure reached.forget
  refine follows_look ?_
  have same := reached.context
  cases context : s₁.context with
  | global =>
    rw [← same, context]
    exact follows_initializer barrier short ty reached
  | function index depth opened =>
    rw [← same, context]
    exact follows_initializer barrier short ty reached
  | struct index opened =>
    rw [← same, context]
    exact follows_lift_last barrier (Cursor.steady_check _) reached

omit barrier short in
/-- What a variable adds to the table is known from the region. -/
theorem follows_declareVariable (name : Name) (ty : Ty) (fit : s.Fit tape loops) :
    Follows tape loops (Parser.declareVariable name ty tape s)
      (store (fun table => s.context.region.declare table name ty) tape s.cursor)
      fun _ s' => s.Reaches tape loops 0 s' := by
  refine follows_look ?_
  cases context : s.context with
  | global => exact follows_declared fit
  | function index depth opened => exact follows_declared fit
  | struct index opened =>
    have member : Follows tape loops (Parser.declareMember index name ty _ tape s) _ _ :=
      follows_declareMember fit context
    rw [context] at member
    exact member

include barrier short

theorem follows_declarator (base : Base) (fit : s.Fit tape loops) :
    Follows tape loops (Parser.declarator base tape s) (Cursor.Parser.declarator base tape s.cursor)
      fun _ s' => s.Reaches tape loops 0 s' := by
  refine (follows_lift barrier (Cursor.steady_expectName _) (.refl fit)).bind ?_
  intro name s₁ reached
  refine (follows_lift barrier Cursor.steady_extent reached).bind ?_
  intro extent s₂ reached
  refine follows_looked ?_
  refine (follows_initialized barrier short name ⟨base, extent⟩ reached.fit).bind ?_
  intro ty s₃ rest
  have region : s₂.cursor.memory.region = s₃.context.region :=
    congrArg Context.region rest.context.symm
  rw [region]
  refine (follows_declareVariable name ty rest.fit).mono ?_
  intro _ s₄ declared
  exact ((reached.trans rest).trans declared).forget

theorem follows_varDeclaration (fit : s.Fit tape loops) :
    Follows tape loops (Parser.varDeclaration tape s) (Cursor.Parser.varDeclaration tape s.cursor)
      fun _ s' => s.Reaches tape loops 0 s' := by
  refine (follows_lift barrier Cursor.steady_typeBase (.refl fit)).bind ?_
  rintro (_ | base) s₁ reached
  · exact follows_pure reached.forget
  refine (follows_commas barrier (fun s fit => follows_declarator barrier short base fit)
    reached).bind ?_
  intro _ s₂ reached
  refine (follows_lift barrier (Cursor.steady_expect _) reached).bind ?_
  intro _ s₃ reached
  exact follows_pure reached.forget

/-! ### Statements -/

omit barrier short in
theorem openFunction_apply : Parser.openFunction tape s = (match s.context with
    | .global | .struct _ _ => Parser.trap .returnOutside
    | .function index depth _ =>
      match s.table.get? index with
      | none => Parser.trap .returnOutside
      | some function => pure (⟨function.name, function.ty, depth⟩ : FunctionScope)) tape s := rfl

omit barrier short in
/-- The function that is open is found in the table. -/
theorem follows_openFunction {index depth : Nat} {opened : Symbol} (fit : s.Fit tape loops)
    (inside : s.context = .function index depth opened) {next : FunctionScope → Parser α}
    {other : Cursor.Run Cursor.State α} {post : α → State → Prop}
    (follows : Follows tape loops (next ⟨opened.name, opened.ty, depth⟩ tape s) other post) :
    Follows tape loops ((Parser.openFunction >>= next) tape s) other post := by
  have isOpen := fit.opened
  rw [inside] at isOpen
  obtain ⟨function, found, rfl⟩ := SymbolTable.get?_of_heads isOpen.1
  have gives : Parser.openFunction tape s =
      ⟨[], .ok (.ok ⟨function.name, function.ty, depth⟩, s)⟩ := by
    rw [openFunction_apply, inside]
    dsimp only
    rw [found]
    rfl
  rw [Parser.bind_of_value gives]
  exact follows

variable {index depth : Nat} {opened : Symbol}

omit short in
theorem follows_returnValue (word : Place) {count : Nat} (reached : s.Reaches tape loops count s')
    (inside : s.context = .function index depth opened) :
    Follows tape loops (Parser.returnValue word tape s')
      (Cursor.Parser.returnValue ⟨opened.name, opened.ty, depth⟩ word tape s'.cursor)
      fun _ s'' => s.Reaches tape loops 0 s'' := by
  refine (follows_lift barrier (Cursor.steady_sees _) reached).bind ?_
  rintro (_ | _) s₁ reached
  · refine (follows_lift barrier Cursor.steady_expression reached).bind ?_
    intro value s₂ reached
    refine follows_openFunction reached.fit (reached.context.trans inside) ?_
    refine (follows_lift barrier (Cursor.steady_check _) reached).bind ?_
    intro _ s₃ reached
    exact follows_lift_last barrier (Cursor.steady_expect _) reached
  · refine follows_openFunction reached.fit (reached.context.trans inside) ?_
    refine (follows_lift barrier (Cursor.steady_check _) reached).bind ?_
    intro _ s₃ reached
    exact follows_lift_last barrier (Cursor.steady_expect _) reached

section

variable {nested : Parser Unit} {nested' : Cursor.Parser Unit}
  (nests : ∀ loops s, s.Fit tape loops → s.context = .function index depth opened →
    Follows tape loops (nested tape s) (nested' tape s.cursor)
      fun _ s' => s.Reaches tape loops 0 s')

include nests

theorem follows_item (fit : s.Fit tape loops) (inside : s.context = .function index depth opened) :
    Follows tape loops (Parser.item nested tape s) (Cursor.Parser.item nested' tape s.cursor)
      fun _ s' => s.Reaches tape loops 0 s' := by
  refine (follows_lift barrier Cursor.steady_atEnd (.refl fit)).bind ?_
  rintro (_ | _) s₁ reached
  case true => exact follows_unexpected barrier _ reached.fit
  refine (follows_varDeclaration barrier short reached.fit).bind ?_
  rintro (_ | _) s₂ rest
  case true => exact follows_pure (reached.trans rest).forget
  have reached := reached.trans rest
  refine (nests loops s₂ reached.fit (reached.context.trans inside)).mono ?_
  intro _ s₃ rest
  exact (reached.trans rest).forget

theorem follows_items {count : Nat} (reached : s.Reaches tape loops count s')
    (inside : s.context = .function index depth opened) :
    Follows tape loops (Parser.items nested tape s') (Cursor.Parser.items nested' tape s'.cursor)
      fun _ s'' => s.Reaches tape loops count s'' := by
  refine follows_bounded fun fuel => ?_
  refine follows_repeating (fun s' => s.Reaches tape loops count s') ?_ ?_ fuel () s' reached
  · intro s₁ here
    refine (follows_lift barrier (Cursor.steady_unlessEnded (Cursor.steady_sees _)) here).mono ?_
    intro found s₂ next
    exact next.mono (Nat.le_add_right _ _)
  · intro _ _ s₁ here
    refine (follows_item barrier short nests here.fit (here.context.trans inside)).mono ?_
    intro _ s₂ next
    exact here.trans next

theorem follows_compound (fit : s.Fit tape loops)
    (inside : s.context = .function index depth opened) :
    Follows tape loops (Parser.compound nested tape s)
      (Cursor.Parser.compound nested' tape s.cursor) fun _ s' => s.Reaches tape loops 0 s' := by
  refine (follows_lift barrier (Cursor.steady_mark? _) (.refl fit)).bind ?_
  rintro (_ | opening) s₁ reached
  · exact follows_pure reached.forget
  refine (follows_items barrier short nests reached inside).bind ?_
  intro _ s₂ reached
  refine (follows_lift barrier (Cursor.steady_expect _) reached).bind ?_
  intro _ s₃ reached
  exact follows_pure reached.forget

omit short in
theorem follows_ifStatement {count : Nat} (reached : s.Reaches tape loops count s')
    (inside : s.context = .function index depth opened) :
    Follows tape loops (Parser.ifStatement nested tape s')
      (Cursor.Parser.ifStatement nested' tape s'.cursor)
      fun _ s'' => s.Reaches tape loops 0 s'' := by
  refine (follows_lift barrier Cursor.steady_condition reached).bind ?_
  intro _ s₁ reached
  refine (nests loops s₁ reached.fit (reached.context.trans inside)).bind ?_
  intro _ s₂ rest
  have reached := reached.trans rest
  refine (follows_lift barrier (Cursor.steady_keyword? _) reached).bind ?_
  rintro (_ | word) s₃ reached
  · exact follows_pure reached.forget
  refine (nests loops s₃ reached.fit (reached.context.trans inside)).mono ?_
  intro _ s₄ rest
  exact (reached.trans rest).forget

omit barrier short nests in
/-- Inside of one loop more. -/
theorem State.Fit.deeper (fit : s.Fit tape loops) (enough : loops < s.position) :
    State.Fit tape (loops + 1) { s with loopDepth := loops + 1 } :=
  { fit with
    loopDepth := rfl
    enough }

omit barrier short nests in
theorem State.Fit.shallower (fit : s.Fit tape (loops + 1)) :
    State.Fit tape loops { s with loopDepth := loops } :=
  { fit with
    loopDepth := rfl
    enough := Nat.le_of_succ_le fit.enough }

omit barrier short nests in
/-- The loop is left whatever comes of its body. -/
theorem follows_leaveLoop {c : Cursor.State} {post : State → Prop}
    (follows : Follows tape (loops + 1) (nested tape s) (nested' tape c) fun _ s' =>
      s'.Fit tape (loops + 1) ∧ post { s' with loopDepth := loops }) :
    Follows tape loops (Parser.ending nested Parser.leaveLoop tape s)
      ((do
        nested'
        update fun memory => { memory with loops := memory.loops - 1 } : Cursor.Parser Unit) tape c)
      fun _ s' => post s' := by
  have left : ∀ s' : State, s'.Fit tape (loops + 1) →
      Parser.leaveLoop s' = .ok { s' with loopDepth := loops } := by
    intro s' fit
    rw [Parser.leaveLoop, fit.loopDepth]
  intro settles
  change Settles ((nested' tape c).andThen _) at settles
  change Run.Agrees tape loops _ ((nested' tape c).andThen _) _
  obtain ⟨visited, ⟨fault, s', fails, fails', fit⟩ | ⟨⟨⟩, s', passes, passes', fit, holds⟩⟩ :=
    follows settles.first
  · rw [Parser.ending_apply (congrArg (Run.mk _) fails) (left s' fit), Cursor.Run.andThen, fails']
    refine ⟨?_, .inl ⟨fault, _, rfl, rfl, fit.shallower⟩⟩
    exact List.forall_mem_append.mpr
      ⟨visited, List.forall_mem_singleton.mpr fit.shallower.self⟩
  · rw [Parser.ending_apply (congrArg (Run.mk _) passes) (left s' fit), Cursor.Run.andThen, passes']
    refine ⟨?_, .inr ⟨(), _, rfl, ?_, holds⟩⟩
    · exact List.forall_mem_append.mpr
        ⟨visited, List.forall_mem_singleton.mpr fit.shallower.self⟩
    · have fewer : s'.loopDepth - 1 = loops := by
        rw [fit.loopDepth, Nat.add_sub_cancel]
      rw [State.cursor, ← fewer]
      rfl

/-- The word in front of the body makes up for the loop. -/
theorem follows_loopBody {count : Nat} (fit : s.Fit tape loops)
    (reached : s.Reaches tape loops count s') (some : 1 ≤ count)
    (inside : s.context = .function index depth opened) :
    Follows tape loops (Parser.loopBody nested tape s')
      (Cursor.Parser.loopBody nested' tape s'.cursor) fun _ s'' => s.Reaches tape loops 0 s'' := by
  obtain rfl := reached.fit.loopDepth
  have enough := fit.enough
  have far := reached.far
  have below := reached.fit.position_lt barrier short
  have deeper := reached.fit.deeper (by omega)
  refine follows_look ?_
  refine follows_countUp (by omega) ?_
  refine follows_updated rfl deeper ?_
  refine follows_leaveLoop ?_
  refine (nests _ _ deeper (reached.context.trans inside)).mono ?_
  intro _ s₂ rest
  refine ⟨rest.fit, ?_⟩
  have left : s'.Reaches tape s'.loopDepth 0 { s₂ with loopDepth := s'.loopDepth } :=
    { rest with fit := rest.fit.shallower }
  exact (reached.trans left).forget

theorem follows_whileStatement {count : Nat} (fit : s.Fit tape loops)
    (reached : s.Reaches tape loops count s') (some : 1 ≤ count)
    (inside : s.context = .function index depth opened) :
    Follows tape loops (Parser.whileStatement nested tape s')
      (Cursor.Parser.whileStatement nested' tape s'.cursor)
      fun _ s'' => s.Reaches tape loops 0 s'' := by
  refine (follows_lift barrier Cursor.steady_condition reached).bind ?_
  intro _ s₁ reached
  exact follows_loopBody barrier short nests fit reached (Nat.le_add_right_of_le some) inside

theorem follows_forStatement {count : Nat} (fit : s.Fit tape loops)
    (reached : s.Reaches tape loops count s') (some : 1 ≤ count)
    (inside : s.context = .function index depth opened) :
    Follows tape loops (Parser.forStatement nested tape s')
      (Cursor.Parser.forStatement nested' tape s'.cursor)
      fun _ s'' => s.Reaches tape loops 0 s'' := by
  refine (follows_lift barrier Cursor.steady_forHeader reached).bind ?_
  intro _ s₁ reached
  exact follows_loopBody barrier short nests fit reached (Nat.le_add_right_of_le some) inside

end

theorem follows_statementWithin : ∀ fuel loops s, s.Fit tape loops →
    s.context = .function index depth opened →
    Follows tape loops (Parser.statementWithin fuel tape s)
      (Cursor.Parser.statementWithin ⟨opened.name, opened.ty, depth⟩ fuel tape s.cursor)
      fun _ s' => s.Reaches tape loops 0 s' := by
  intro fuel
  induction fuel with
  | zero => exact fun _ _ _ _ => follows_cutOff
  | succ fuel ih =>
    intro loops s fit inside
    refine (follows_compound barrier short ih fit inside).bind ?_
    rintro (_ | _) s₁ reached
    case true => exact follows_pure reached
    refine (follows_lift barrier (Cursor.steady_keyword? _) reached).bind ?_
    rintro (_ | _) s₂ reached
    case some => exact follows_ifStatement barrier ih reached inside
    refine (follows_lift barrier (Cursor.steady_keyword? _) reached).bind ?_
    rintro (_ | _) s₃ reached
    case some =>
      exact follows_whileStatement barrier short ih fit reached (Nat.le_add_left _ _) inside
    refine (follows_lift barrier (Cursor.steady_keyword? _) reached).bind ?_
    rintro (_ | _) s₄ reached
    case some =>
      exact follows_forStatement barrier short ih fit reached (Nat.le_add_left _ _) inside
    refine (follows_lift barrier (Cursor.steady_keyword? _) reached).bind ?_
    rintro (_ | word) s₅ reached
    case some =>
      exact follows_lift_last barrier (Cursor.steady_breakLoop _) reached
    refine (follows_lift barrier (Cursor.steady_keyword? _) reached).bind ?_
    rintro (_ | word) s₆ reached
    case some => exact follows_returnValue barrier word reached inside
    refine (follows_lift barrier (Cursor.steady_mark? _) reached).bind ?_
    rintro (_ | _) s₇ reached
    case some => exact follows_pure reached.forget
    exact follows_lift_last barrier Cursor.steady_expressionStatement reached

theorem follows_statement (fit : s.Fit tape loops)
    (inside : s.context = .function index depth opened) :
    Follows tape loops (Parser.statement tape s)
      (Cursor.Parser.statement ⟨opened.name, opened.ty, depth⟩ tape s.cursor)
      fun _ s' => s.Reaches tape loops 0 s' :=
  follows_bounded fun fuel => follows_statementWithin barrier short fuel loops s fit inside

theorem follows_compoundStatement (fit : s.Fit tape loops)
    (inside : s.context = .function index depth opened) :
    Follows tape loops (Parser.compoundStatement tape s)
      (Cursor.Parser.compoundStatement ⟨opened.name, opened.ty, depth⟩ tape s.cursor)
      fun _ s' => s.Reaches tape loops 0 s' :=
  follows_compound barrier short (fun _ _ => follows_statement barrier short) fit inside

end

end Guarded

end PlainC
